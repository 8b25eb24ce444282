import Mathlib
import Ghajar.Lib.Run
import Ghajar.Socks.Connect

/-!
# The two directions of a tunnel

`relay` of `native/ghajar-helper/socks5.go`: two copiers over two connections, each with what it has
read and not yet written, while the peers send, end their side or break off at any time. A copier
that is through half-closes the connection it wrote to, or closes it as a whole where it has no
`CloseWrite`, which also ends the reading of the other copier. `Flow` is what holds of a direction.
-/

namespace Ghajar.Socks

open Run

/-- The direction of a copier. A connection has the name of the direction that it is read for. -/
inductive Dir
  | up
  | down
  deriving DecidableEq, Repr

def Dir.other : Dir → Dir
  | up => down
  | down => up

@[simp] theorem Dir.other_other (d : Dir) : d.other.other = d := by cases d <;> rfl

@[simp] theorem Dir.other_ne (d : Dir) : d.other ≠ d := by cases d <;> decide

theorem Dir.eq_other {c d : Dir} (h : c ≠ d) : c = d.other := by
  cases c <;> cases d <;> first | rfl | exact absurd rfl h

inductive Phase
  | copying
  | copied
  | done
  deriving DecidableEq, Repr

/-- One direction: what its peer sent, what of it waits to be read, what `io.Copy` holds, and what
was written to the other connection. -/
structure Pipe where
  sent : List UInt8
  queue : List UInt8
  /-- The peer sends no more. -/
  fin : Bool := false
  held : List UInt8 := []
  got : List UInt8 := []
  phase : Phase := .copying
  deriving DecidableEq, Repr

structure Relay where
  pipe : Dir → Pipe
  closed : Dir → Bool
  /-- The peer of the connection has broken it off. -/
  broken : Dir → Bool

namespace Relay

def set (s : Relay) (d : Dir) (p : Pipe) : Relay := { s with pipe := Function.update s.pipe d p }

@[simp] theorem set_self (s : Relay) (d : Dir) (p : Pipe) : (s.set d p).pipe d = p := by simp [set]

@[simp] theorem set_other (s : Relay) {c d : Dir} (p : Pipe) (h : c ≠ d) :
    (s.set d p).pipe c = s.pipe c := by simp [set, h]

@[simp] theorem set_closed (s : Relay) (d : Dir) (p : Pipe) : (s.set d p).closed = s.closed := rfl

@[simp] theorem set_broken (s : Relay) (d : Dir) (p : Pipe) : (s.set d p).broken = s.broken := rfl

/-- A relay begins with what the client had sent behind its request. -/
def start (rest : List UInt8) : Relay where
  pipe
    | .up => { sent := rest, queue := rest }
    | .down => { sent := [], queue := [] }
  closed _ := false
  broken _ := false

end Relay

inductive Act
  | send (d : Dir) (bs : List UInt8)
  | fin (d : Dir)
  | broke (c : Dir)
  | read (d : Dir) (n : Nat)
  | write (d : Dir)
  /-- A read or a write that fails, the latter behind `k` bytes. -/
  | fail (d : Dir) (k : Nat)
  | eof (d : Dir)
  | finish (d : Dir)
  deriving DecidableEq, Repr

/-- The acts of the copiers. -/
def Act.ours : Act → Bool
  | send .. | fin _ | broke _ => false
  | _ => true

section Step

/- Whether a connection has a `CloseWrite`. -/
variable (closeWrite : Dir → Bool)

def act (s : Relay) : Act → Option Relay
  | .send d bs =>
    let p := s.pipe d
    if p.fin then none else some (s.set d { p with sent := p.sent ++ bs, queue := p.queue ++ bs })
  | .fin d => some (s.set d { s.pipe d with fin := true })
  | .broke c => some { s with broken := Function.update s.broken c true }
  | .read d n =>
    let p := s.pipe d
    if p.phase = .copying ∧ p.held = [] ∧ 0 < n ∧ n ≤ p.queue.length ∧ s.closed d = false then
      some (s.set d { p with held := p.queue.take n, queue := p.queue.drop n })
    else none
  | .write d =>
    let p := s.pipe d
    if p.phase = .copying ∧ p.held ≠ [] ∧ s.closed d.other = false then
      some (s.set d { p with got := p.got ++ p.held, held := [] })
    else none
  | .fail d k =>
    let p := s.pipe d
    if p.phase = .copying ∧ ((p.held = [] ∧ (s.closed d ∨ s.broken d)) ∨
        (p.held ≠ [] ∧ (s.closed d.other ∨ s.broken d.other))) then
      some (s.set d { p with got := p.got ++ p.held.take k, held := [], phase := .copied })
    else none
  | .eof d =>
    let p := s.pipe d
    if p.phase = .copying ∧ p.held = [] ∧ p.queue = [] ∧ p.fin ∧ s.closed d = false then
      some (s.set d { p with phase := .copied })
    else none
  | .finish d =>
    let p := s.pipe d
    if p.phase = .copied then
      let s := s.set d { p with phase := .done }
      some (if closeWrite d.other then s
        else { s with closed := Function.update s.closed d.other true })
    else none

end Step

/-! ## What holds of a direction -/

section Flow

variable {closeWrite : Dir → Bool} {s s' : Relay} {a : Act} {c d : Dir}

/-- A direction whose copier may stop early. -/
def Cut (s : Relay) (d : Dir) : Prop := s.closed d ∨ s.broken d ∨ s.broken d.other

structure Flow (closeWrite : Dir → Bool) (s : Relay) (d : Dir) : Prop where
  copying : (s.pipe d).phase = .copying →
    (s.pipe d).sent = (s.pipe d).got ++ ((s.pipe d).held ++ (s.pipe d).queue)
  stopped : (s.pipe d).phase ≠ .copying →
    (s.pipe d).got <+: (s.pipe d).sent ∧
      (((s.pipe d).got = (s.pipe d).sent ∧ (s.pipe d).fin = true) ∨ Cut s d)
  closed : s.closed d = true → closeWrite d = false ∧ (s.pipe d.other).phase = .done

theorem flow_start (rest : List UInt8) : Flow closeWrite (.start rest) d := by
  cases d
  · exact ⟨fun _ => rfl, fun h => absurd rfl h, fun h => by cases h⟩
  · exact ⟨fun _ => rfl, fun h => absurd rfl h, fun h => by cases h⟩

theorem Cut.mono (hb : ∀ c, s.broken c = true → s'.broken c = true)
    (hc : s.closed d = true → s'.closed d = true) (h : Cut s d) : Cut s' d :=
  h.imp hc (Or.imp (hb d) (hb d.other))

/-- A direction that an act leaves alone, while no copier comes back to life. -/
theorem Flow.keep (h : Flow closeWrite s d) (hp : s'.pipe d = s.pipe d)
    (hb : ∀ c, s.broken c = true → s'.broken c = true)
    (hc : s.closed d = true → s'.closed d = true)
    (hclosed : s'.closed d = true → closeWrite d = false ∧ (s'.pipe d.other).phase = .done) :
    Flow closeWrite s' d := by
  refine ⟨?_, ?_, hclosed⟩
  · rw [hp]
    exact h.copying
  · rw [hp]
    exact fun hs => (h.stopped hs).imp_right (Or.imp_right (Cut.mono hb hc))

/-- An act of one direction that closes nothing. -/
theorem flow_set {p : Pipe} (hf : ∀ d, Flow closeWrite s d)
    (hphase : (s.pipe c).phase = .done → p.phase = .done)
    (hcopying : p.phase = .copying → p.sent = p.got ++ (p.held ++ p.queue))
    (hstopped : p.phase ≠ .copying → p.got <+: p.sent ∧
      ((p.got = p.sent ∧ p.fin = true) ∨ Cut s c)) :
    ∀ d, Flow closeWrite (s.set c p) d := by
  intro d
  have hdone : ∀ e, (s.pipe e).phase = .done → ((s.set c p).pipe e).phase = .done := by
    intro e he
    by_cases hec : e = c
    · rw [hec] at he
      rw [hec, Relay.set_self]
      exact hphase he
    · rwa [Relay.set_other _ _ hec]
  have hclosed : (s.set c p).closed d = true →
      closeWrite d = false ∧ ((s.set c p).pipe d.other).phase = .done :=
    fun hc => ((hf d).closed hc).imp_right (hdone d.other)
  by_cases hdc : d = c
  · subst hdc
    refine ⟨?_, ?_, hclosed⟩
    · rw [Relay.set_self]
      exact hcopying
    · rw [Relay.set_self]
      exact hstopped
  · exact (hf d).keep (Relay.set_other _ _ hdc) (fun _ h => h) (fun h => h) hclosed

theorem flow_step (hf : ∀ d, Flow closeWrite s d) (hs : act closeWrite s a = some s') :
    ∀ d, Flow closeWrite s' d := by
  cases a with
  | send c bs =>
    simp only [act] at hs
    split at hs
    · cases hs
    next hfin =>
      cases hs
      refine flow_set hf (fun h => h) (fun hc => ?_) fun hc => ?_
      · rw [(hf c).copying hc]
        simp only [List.append_assoc]
      · obtain ⟨hpre, hend⟩ := (hf c).stopped hc
        exact ⟨hpre.trans (List.prefix_append _ _),
          .inr (hend.resolve_left fun h => hfin h.2)⟩
  | fin c =>
    cases hs
    exact flow_set hf (fun h => h) (hf c).copying fun hc =>
      ((hf c).stopped hc).imp_right (Or.imp_left fun h => ⟨h.1, rfl⟩)
  | broke c =>
    cases hs
    refine fun d => (hf d).keep rfl (fun e he => ?_) (fun h => h) (hf d).closed
    by_cases hec : e = c
    · simp [hec]
    · simpa [hec] using he
  | read c n =>
    simp only [act] at hs
    split at hs
    next hg =>
      cases hs
      refine flow_set hf (fun h => h) (fun hc => ?_) fun hc => absurd hg.1 hc
      have hsent := (hf c).copying hg.1
      rw [hg.2.1] at hsent
      rw [List.take_append_drop]
      exact hsent
    · cases hs
  | write c =>
    simp only [act] at hs
    split at hs
    next hg =>
      cases hs
      refine flow_set hf (fun h => h) (fun hc => ?_) fun hc => absurd hg.1 hc
      rw [(hf c).copying hg.1]
      simp only [List.append_assoc, List.nil_append]
    · cases hs
  | fail c k =>
    simp only [act] at hs
    split at hs
    next hg =>
      cases hs
      refine flow_set hf (fun h => ?_) (fun hc => by cases hc) fun _ => ⟨?_, .inr ?_⟩
      · rw [hg.1] at h
        cases h
      · rw [(hf c).copying hg.1]
        exact (List.prefix_append_right_inj _).2
          ((List.take_prefix k _).trans (List.prefix_append _ _))
      · rcases hg.2 with ⟨-, h | h⟩ | ⟨-, h | h⟩
        · exact .inl h
        · exact .inr (.inl h)
        · have hdone := ((hf c.other).closed h).2
          rw [Dir.other_other, hg.1] at hdone
          cases hdone
        · exact .inr (.inr h)
    · cases hs
  | eof c =>
    simp only [act] at hs
    split at hs
    next hg =>
      cases hs
      refine flow_set hf (fun h => ?_) (fun hc => by cases hc) fun _ => ?_
      · rw [hg.1] at h
        cases h
      · have hsent := (hf c).copying hg.1
        rw [hg.2.1, hg.2.2.1, List.append_nil, List.append_nil] at hsent
        exact ⟨by rw [hsent], .inl ⟨hsent.symm, hg.2.2.2.1⟩⟩
    · cases hs
  | finish c =>
    simp only [act] at hs
    split at hs
    next hg =>
      have hset : ∀ d, Flow closeWrite (s.set c { s.pipe c with phase := .done }) d :=
        flow_set hf (fun _ => rfl) (fun hc => by cases hc) fun _ =>
          (hf c).stopped (by rw [hg]; exact fun h => by cases h)
      split at hs
      · cases hs
        exact hset
      next hcw =>
        cases hs
        refine fun d => (hset d).keep rfl (fun _ h => h) (fun h => ?_) fun h => ?_
        · by_cases hdc : d = c.other
          · simp [hdc]
          · simpa [hdc] using h
        · by_cases hdc : d = c.other
          · subst hdc
            refine ⟨by simpa using hcw, ?_⟩
            rw [Dir.other_other]
            simp
          · exact (hset d).closed (by simpa [hdc] using h)
    · cases hs

/-- What was sent stays sent. -/
theorem sent_step (hs : act closeWrite s a = some s') : (s.pipe d).sent <+: (s'.pipe d).sent := by
  have hset : ∀ {c : Dir} {p : Pipe}, (s.pipe c).sent <+: p.sent →
      (s.pipe d).sent <+: ((s.set c p).pipe d).sent := by
    intro c p hp
    by_cases hdc : d = c
    · subst hdc
      rwa [Relay.set_self]
    · rw [Relay.set_other _ _ hdc]
  cases a with
  | send c bs =>
    simp only [act] at hs
    split at hs
    · cases hs
    · cases hs
      exact hset (List.prefix_append _ _)
  | fin c =>
    cases hs
    exact hset (List.prefix_refl _)
  | broke c =>
    cases hs
    exact List.prefix_refl _
  | finish c =>
    simp only [act] at hs
    split at hs
    · split at hs
      · cases hs
        exact hset (List.prefix_refl _)
      · cases hs
        exact hset (List.prefix_refl _)
    · cases hs
  | read c n | write c | fail c k | eof c =>
    simp only [act] at hs
    split at hs
    · cases hs
      exact hset (List.prefix_refl _)
    · cases hs

theorem sent_run {rest : List UInt8} {as : List Act}
    (hr : run (act closeWrite) (.start rest) as = some s) : rest <+: (s.pipe .up).sent :=
  run_always (I := fun s => rest <+: (s.pipe .up).sent) (fun _ _ _ hi hs => hi.trans (sent_step hs))
    (List.prefix_refl rest) hr

/-! ## A tunnel ends -/

/-- The copiers alone can bring the direction to its end, and leave the other one as it is. -/
def Ends (closeWrite : Dir → Bool) (s : Relay) (d : Dir) : Prop :=
  ∃ as : List Act, (∀ a ∈ as, a.ours = true) ∧ ∃ s', run (act closeWrite) s as = some s' ∧
    (s'.pipe d).phase = .done ∧ s'.pipe d.other = s.pipe d.other

theorem Ends.step (ha : a.ours = true) (hs : act closeWrite s a = some s')
    (hp : s'.pipe d.other = s.pipe d.other) (h : Ends closeWrite s' d) : Ends closeWrite s d := by
  obtain ⟨as, hours, t, hr, hdone, ht⟩ := h
  refine ⟨a :: as, List.forall_mem_cons.2 ⟨ha, hours⟩, t, ?_, hdone, ht.trans hp⟩
  rw [run, hs]
  exact hr

theorem ends_copied (h : (s.pipe d).phase = .copied) : Ends closeWrite s d := by
  have hs : ∃ s', act closeWrite s (.finish d) = some s' ∧ (s'.pipe d).phase = .done ∧
      s'.pipe d.other = s.pipe d.other := by
    simp only [act, if_pos h]
    split
    · exact ⟨_, rfl, by simp, by simp⟩
    · exact ⟨_, rfl, by simp, by simp⟩
  obtain ⟨s', hs, hdone, hother⟩ := hs
  refine ⟨[.finish d], by simp [Act.ours], s', ?_, hdone, hother⟩
  rw [run, hs]
  rfl

theorem write_some (hp : (s.pipe d).phase = .copying) (hheld : (s.pipe d).held ≠ [])
    (ho : s.closed d.other = false) : act closeWrite s (.write d) =
      some (s.set d { s.pipe d with got := (s.pipe d).got ++ (s.pipe d).held, held := [] }) :=
  if_pos ⟨hp, hheld, ho⟩

theorem read_some (hp : (s.pipe d).phase = .copying) (hheld : (s.pipe d).held = [])
    (hq : (s.pipe d).queue ≠ []) (hc : s.closed d = false) :
    act closeWrite s (.read d (s.pipe d).queue.length) =
      some (s.set d { s.pipe d with
        held := (s.pipe d).queue.take (s.pipe d).queue.length
        queue := (s.pipe d).queue.drop (s.pipe d).queue.length }) :=
  if_pos ⟨hp, hheld, List.length_pos_iff.2 hq, le_rfl, hc⟩

theorem eof_some (hp : (s.pipe d).phase = .copying) (hheld : (s.pipe d).held = [])
    (hq : (s.pipe d).queue = []) (hfin : (s.pipe d).fin = true) (hc : s.closed d = false) :
    act closeWrite s (.eof d) = some (s.set d { s.pipe d with phase := .copied }) :=
  if_pos ⟨hp, hheld, hq, hfin, hc⟩

theorem fail_some (hp : (s.pipe d).phase = .copying) (hheld : (s.pipe d).held = [])
    (hc : s.closed d = true) :
    act closeWrite s (.fail d 0) = some (s.set d { s.pipe d with
      got := (s.pipe d).got ++ (s.pipe d).held.take 0, held := [], phase := .copied }) :=
  if_pos ⟨hp, .inl ⟨hheld, .inl hc⟩⟩

/-- A direction with nothing more to read. -/
theorem ends_read (hp : (s.pipe d).phase = .copying) (hheld : (s.pipe d).held = [])
    (hfin : (s.pipe d).fin = true) (h : s.closed d = true ∨ (s.pipe d).queue = []) :
    Ends closeWrite s d := by
  by_cases hc : s.closed d = true
  · exact Ends.step rfl (fail_some hp hheld hc) (by simp) (ends_copied (by simp))
  · exact Ends.step rfl (eof_some hp hheld (h.resolve_left hc) hfin (by simpa using hc)) (by simp)
      (ends_copied (by simp))

/-- A direction whose copier holds nothing. -/
theorem ends_free (hp : (s.pipe d).phase = .copying) (hheld : (s.pipe d).held = [])
    (hfin : (s.pipe d).fin = true) (ho : s.closed d.other = false) : Ends closeWrite s d := by
  by_cases h : s.closed d = true ∨ (s.pipe d).queue = []
  · exact ends_read hp hheld hfin h
  · simp only [not_or, Bool.not_eq_true] at h
    refine Ends.step rfl (read_some hp hheld h.2 h.1) (by simp) ?_
    refine Ends.step rfl (write_some (d := d) (by simpa using hp) (by simpa using h.2)
      (by simpa using ho)) (by simp) ?_
    exact ends_read (by simpa using hp) (by simp) (by simpa using hfin) (.inr (by simp))

theorem ends_of_flow (hf : ∀ d, Flow closeWrite s d) (hfin : (s.pipe d).fin = true) :
    Ends closeWrite s d := by
  cases hp : (s.pipe d).phase with
  | done => exact ⟨[], by simp, s, rfl, hp, rfl⟩
  | copied => exact ends_copied hp
  | copying =>
    have ho : s.closed d.other = false := by
      rw [← Bool.not_eq_true]
      intro hc
      have hdone := ((hf d.other).closed hc).2
      rw [Dir.other_other, hp] at hdone
      cases hdone
    by_cases hheld : (s.pipe d).held = []
    · exact ends_free hp hheld hfin ho
    · exact Ends.step rfl (write_some hp hheld ho) (by simp)
        (ends_free (by simpa using hp) (by simp) (by simpa using hfin) (by simpa using ho))

theorem flow_always {as : List Act} (hf : ∀ d, Flow closeWrite s d)
    (hr : run (act closeWrite) s as = some s') : ∀ d, Flow closeWrite s' d :=
  run_always (I := fun s => ∀ d, Flow closeWrite s d) (fun _ _ _ => flow_step) hf hr

theorem flow_run {rest : List UInt8} {as : List Act}
    (hr : run (act closeWrite) (.start rest) as = some s) (d : Dir) : Flow closeWrite s d :=
  flow_always (fun _ => flow_start rest) hr d

/-! ## Whole tunnels -/

/-- **Nothing is lost in the tunnel.** In every run from the moment the request is granted, each
side has got a prefix of what the other sent, the server what stood behind the request first; and
a direction is only over when everything sent in it was delivered, unless a connection broke or
the other direction ended on a connection without `CloseWrite`. -/
theorem tunnel_delivers {ipString : List UInt8 → List UInt8} {b : Backend}
    {stream rest : List UInt8} {as : List Act} {s : Relay}
    (ht : (handleSocks ipString b stream).relayed = some rest)
    (hr : run (act closeWrite) (.start rest) as = some s) :
    rest <:+ stream ∧ rest <+: (s.pipe .up).sent ∧
    (∀ d, (s.pipe d).got <+: (s.pipe d).sent ∧
      ((s.pipe d).phase = .done →
        ((s.pipe d).got = (s.pipe d).sent ∧ (s.pipe d).fin = true) ∨
        s.broken d = true ∨ s.broken d.other = true ∨
        (closeWrite d = false ∧ (s.pipe d.other).phase = .done))) := by
  refine ⟨?_, sent_run hr, fun d => ?_⟩
  · obtain ⟨-, -, t, port, ⟨methods, version, reserved, -, rfl⟩, -⟩ :=
      relayed_iff.1 ht
    rw [← List.append_assoc]
    exact List.suffix_append _ _
  · have hf := flow_run hr d
    refine ⟨?_, fun hd => ?_⟩
    · by_cases hp : (s.pipe d).phase = .copying
      · rw [hf.copying hp]
        exact List.prefix_append _ _
      · exact (hf.stopped hp).1
    · rcases (hf.stopped (by rw [hd]; exact fun h => by cases h)).2 with h | h | h | h
      · exact .inl h
      · exact .inr (.inr (.inr (hf.closed h)))
      · exact .inr (.inl h)
      · exact .inr (.inr (.inl h))

/-- A client that sends one byte and its end with its request. -/
def oneByte : List UInt8 := [5, 1, 0] ++ [5, 1, 0, 1, 127, 0, 0, 1, 0, 22] ++ [65]

def oneByteActs : List Act :=
  [.read .up 1, .fin .up, .write .up, .eof .up, .finish .up, .fin .down]

def oneByteSent : Relay :=
  (run (act fun _ => true) (.start [65]) oneByteActs).getD (.start [])

theorem oneByte_run : run (act fun _ => true) (.start [65]) oneByteActs = some oneByteSent := rfl

theorem tunnel_delivers_one : [65] <:+ oneByte ∧ [65] <+: (oneByteSent.pipe .up).sent ∧
    (∀ d, (oneByteSent.pipe d).got <+: (oneByteSent.pipe d).sent ∧
      ((oneByteSent.pipe d).phase = .done →
        ((oneByteSent.pipe d).got = (oneByteSent.pipe d).sent ∧ (oneByteSent.pipe d).fin = true) ∨
        oneByteSent.broken d = true ∨ oneByteSent.broken d.other = true ∨
        (true = false ∧ (oneByteSent.pipe d.other).phase = .done))) := by
  have ht : (handleSocks id ⟨fun _ => true, false, none, fun _ => true⟩ oneByte).relayed =
      some [65] := by decide
  exact tunnel_delivers ht oneByte_run

/-- **A tunnel ends.** Once both sides have sent their end, the copiers can finish in every state
a run may have led to. -/
theorem tunnel_ends {rest : List UInt8} {as : List Act} {s : Relay}
    (hr : run (act closeWrite) (.start rest) as = some s)
    (hfin : ∀ d, (s.pipe d).fin = true) :
    ∃ as' : List Act, (∀ a ∈ as', a.ours = true) ∧ ∃ s', run (act closeWrite) s as' = some s' ∧
      ∀ d, (s'.pipe d).phase = .done := by
  have hf := fun d => flow_run hr d
  obtain ⟨as₁, hours₁, t, ht, hup, hdown⟩ := ends_of_flow hf (hfin .up)
  have hfin' : (t.pipe .down).fin = true := by
    have hsame : t.pipe .down = s.pipe .down := hdown
    rw [hsame]
    exact hfin .down
  obtain ⟨as₂, hours₂, u, hu, hdone, hsame⟩ := ends_of_flow (flow_always hf ht) hfin'
  refine ⟨as₁ ++ as₂, fun a ha => (List.mem_append.1 ha).elim (hours₁ a) (hours₂ a), u, ?_, ?_⟩
  · rw [run_append, ht]
    exact hu
  · intro d
    cases d with
    | up =>
      have hsame : u.pipe .up = t.pipe .up := hsame
      rw [hsame]
      exact hup
    | down => exact hdone

theorem tunnel_ends_one : ∃ as' : List Act, (∀ a ∈ as', a.ours = true) ∧
    ∃ s', run (act fun _ => true) oneByteSent as' = some s' ∧ ∀ d, (s'.pipe d).phase = .done :=
  tunnel_ends oneByte_run fun d => by cases d <;> rfl

end Flow

end Ghajar.Socks
