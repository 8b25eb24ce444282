import Mathlib
import Ghajar.Lib.Run
import Ghajar.Lib.Text

/-!
# Tor

`TorController`: `start`, which spawns a process and waits for it, `stop`, and the threads that read
the logs of the processes. The threads share two flags with `start`, which does not wait for the
thread of an earlier process to end. `engineLock` keeps one `start` from overlapping another; a
`stop` may come at any time. `ready_means_ready` says in which runs `start` returns true for a
process that is ready.
-/

namespace Ghajar.Tor

open Run

/-! ## The log -/

/-- What stands behind the first occurrence of a word. -/
def behind (word : List Char) : List Char → Option (List Char)
  | [] => none
  | c :: cs => if word <+: c :: cs then some ((c :: cs).drop word.length) else behind word cs

def percentOf (line : String) : Option Int :=
  (behind "Bootstrapped ".toList line.toList).bind fun rest =>
    Text.toIntOrNull (String.ofList (rest.takeWhile fun c => (Text.digitOf c).isSome))

/-- A thread `tor-log`: before the next line, before it assigns the percentage, before it assigns
`bootstrapped`. -/
inductive Reader
  | next
  | percent (pct : Int)
  | done
  deriving DecidableEq, Repr

/-- A process, with all that it has logged and what of it is still to be read; `accepted` says
whether its port has accepted a connection of `start`. -/
structure Proc where
  alive : Bool := false
  lines : List String := []
  unread : List String := []
  reader : Option Reader := none
  accepted : Bool := false

/-- It has logged that it is done. -/
def Proc.logged (pr : Proc) : Bool := pr.lines.any fun line => (percentOf line).any (100 ≤ ·)

/-! ## The statements -/

/-- Who listens on the port: one of the processes, or another app. -/
inductive Owner
  | tor (p : Nat)
  | other
  deriving DecidableEq, Repr

/-- The next statement of a `stop`. -/
inductive StopPc
  | raise
  | take
  | clear (p : Nat)
  | destroy (p : Nat)
  deriving DecidableEq, Repr

/-- The next statement of `waitForPort`. -/
inductive Wait
  | time
  | stopping
  | alive
  | connect
  | ready
  deriving DecidableEq, Repr

/-- The next statement of a `start`, with the process it has spawned and its `portOpen`. -/
inductive StartPc
  | stop (pc : StopPc)
  | lower
  | unboot
  | zero
  | prepare
  | spawn
  | publish (p : Nat)
  | read (p : Nat)
  | wait (p : Nat) (w : Wait) (portOpen : Bool)
  deriving DecidableEq, Repr

/-- The fields of the controller, the processes, the port, the calls that run. `ready` is not in the
source: the processes for which `start` has returned true. -/
structure State where
  process : Option Nat := none
  stopping : Bool := false
  bootstrapped : Bool := false
  bootstrapPercent : Int := 0
  procs : Nat → Proc := fun _ => {}
  spawned : Nat := 0
  port : Option Owner := none
  starting : Option StartPc := none
  stops : List StopPc := []
  ready : List Nat := []

namespace State

variable (s : State)

def setProc (p : Nat) (pr : Proc) : State := { s with procs := Function.update s.procs p pr }

def there : Owner → Bool
  | .tor p => (s.procs p).alive
  | .other => true

/-- One statement of a `stop`; a destroyed process may live on for a while. -/
def stopStep : StopPc → State × Option StopPc
  | .raise => ({ s with stopping := true }, some .take)
  | .take => (s, s.process.map .clear)
  | .clear p => ({ s with process := none }, some (.destroy p))
  | .destroy _ => (s, none)

/-- One statement of the `start` that runs. `ok` is what the world answers: the files are there, the
process is spawned, the deadline has not passed, the connection is accepted. -/
def startStep (ok : Bool) : StartPc → Option State
  | .stop pc =>
    let r := s.stopStep pc
    some { r.1 with starting := some ((r.2.map .stop).getD .lower) }
  | .lower => some { s with stopping := false, starting := some .unboot }
  | .unboot => some { s with bootstrapped := false, starting := some .zero }
  | .zero => some { s with bootstrapPercent := 0, starting := some .prepare }
  | .prepare => some { s with starting := if ok then some .spawn else none }
  | .spawn =>
    if ok then
      some { s.setProc s.spawned { s.procs s.spawned with alive := true } with
        spawned := s.spawned + 1, starting := some (.publish s.spawned) }
    else some { s with starting := none }
  | .publish p => some { s with process := some p, starting := some (.read p) }
  | .read p =>
    some { s.setProc p { s.procs p with reader := some .next } with
      starting := some (.wait p .time false) }
  | .wait p .time o => some { s with starting := if ok then some (.wait p .stopping o) else none }
  | .wait p .stopping o =>
    some { s with starting := if s.stopping then none else some (.wait p .alive o) }
  | .wait p .alive o =>
    let alive := s.process.any fun q => (s.procs q).alive
    some { s with starting := if alive then some (.wait p .connect o) else none }
  | .wait p .connect true => some { s with starting := some (.wait p .ready true) }
  | .wait p .connect false =>
    if ok then
      match s.port with
      | none => none
      | some .other => some { s with starting := some (.wait p .ready true) }
      | some (.tor q) => some { s.setProc q { s.procs q with accepted := true } with
          starting := some (.wait p .ready true) }
    else some { s with starting := some (.wait p .ready false) }
  | .wait p .ready o =>
    if o && s.bootstrapped then some { s with starting := none, ready := s.ready ++ [p] }
    else some { s with starting := some (.wait p .time o) }

/-- One statement of the thread that reads the log of a process. -/
def readStep (p : Nat) : Option State :=
  match (s.procs p).reader with
  | none => none
  | some .next =>
    match (s.procs p).unread with
    | [] => none
    | line :: rest =>
      let pct := if s.stopping then none else percentOf line
      some (s.setProc p { s.procs p with
        unread := rest, reader := some ((pct.map .percent).getD .next) })
  | some (.percent pct) =>
    some { s.setProc p { s.procs p with
      reader := some (if pct ≥ 100 then .done else .next) } with bootstrapPercent := pct }
  | some .done =>
    some { s.setProc p { s.procs p with reader := some .next } with bootstrapped := true }

end State

inductive Act
  | start
  | run (ok : Bool)
  | stop
  | runStop (i : Nat)
  | read (p : Nat)
  /-- A process writes a line. -/
  | log (p : Nat) (line : String)
  | listen (o : Owner)
  | exit (p : Nat)
  | close

/-- A process that ends frees the port. -/
def step (s : State) : Act → Option State
  | .start => if s.starting = none then some { s with starting := some (.stop .raise) } else none
  | .run ok => s.starting.bind fun pc => s.startStep ok pc
  | .stop => some { s with stops := s.stops ++ [.raise] }
  | .runStop i => s.stops[i]?.map fun pc =>
      let r := s.stopStep pc
      { r.1 with stops := match r.2 with
        | some pc => s.stops.set i pc
        | none => s.stops.eraseIdx i }
  | .read p => s.readStep p
  | .log p line =>
    if (s.procs p).alive then
      some (s.setProc p { s.procs p with
        lines := (s.procs p).lines ++ [line], unread := (s.procs p).unread ++ [line] })
    else none
  | .listen o =>
    if s.port = none ∧ s.there o = true then some { s with port := some o } else none
  | .exit p =>
    some { s.setProc p { s.procs p with alive := false } with
      port := if s.port = some (.tor p) then none else s.port }
  | .close => if s.port = some .other then some { s with port := none } else none

/-! ## Readiness -/

/-- The process itself has logged that it is done, and its port has accepted a connection. -/
def Ready (s : State) (p : Nat) : Prop := (s.procs p).logged = true ∧ (s.procs p).accepted = true

/-- The process of a `start` that has reset the flags, once it has one. -/
def StartPc.own : StartPc → Option (Option Nat)
  | .stop _ | .lower | .unboot => none
  | .zero | .prepare | .spawn => some none
  | .publish p | .read p | .wait p _ _ => some (some p)

/-- **The condition**: while a `start` runs on reset flags, the thread of another process does not
set them before its own process is done, and it is its own process that accepts. -/
def Fits (s : State) (a : Act) : Prop :=
  match a with
  | .read p =>
    match (s.procs p).reader, s.starting.bind StartPc.own with
    | some .done, some none => False
    | some .done, some (some q) => p = q ∨ (s.procs q).logged = true
    | _, _ => True
  | .run true =>
    match s.starting with
    | some (.wait p .connect false) => s.port = some (.tor p)
    | _ => True
  | _ => True

instance (s : State) (a : Act) : Decidable (Fits s a) := by
  unfold Fits
  split
  · split <;> infer_instance
  · split <;> infer_instance
  · infer_instance

/-! ## What is kept -/

/-- What a thread has in hand was logged by its process. -/
structure Proc.Sound (pr : Proc) : Prop where
  unread : ∀ line ∈ pr.unread, line ∈ pr.lines
  percent : ∀ pct, pr.reader = some (.percent pct) → 100 ≤ pct → pr.logged = true
  done : pr.reader = some .done → pr.logged = true

structure Kept (s : State) : Prop where
  sound : ∀ p, (s.procs p).Sound
  fresh : s.starting.bind StartPc.own = some none → s.bootstrapped = false
  own : ∀ p, s.starting.bind StartPc.own = some (some p) → s.bootstrapped = true →
    (s.procs p).logged = true
  opened : ∀ p w, s.starting = some (.wait p w true) → (s.procs p).accepted = true
  ready : ∀ p ∈ s.ready, Ready s p

/-- What a process has done it stays to have done. -/
structure Proc.Grows (pr pr' : Proc) : Prop where
  logged : pr.logged = true → pr'.logged = true
  accepted : pr.accepted = true → pr'.accepted = true

variable {s s' : State} {p : Nat} {pr : Proc} {a : Act}

theorem Proc.Grows.refl (pr : Proc) : pr.Grows pr := ⟨id, id⟩

theorem grows_setProc (h : (s.procs p).Grows pr) (q : Nat) :
    (s.procs q).Grows ((s.setProc p pr).procs q) := by
  unfold State.setProc
  by_cases hq : q = p
  · subst hq
    simpa using h
  · simpa [Function.update_of_ne hq] using Proc.Grows.refl _

theorem sound_setProc (h : ∀ q, (s.procs q).Sound) (hp : pr.Sound) (q : Nat) :
    ((s.setProc p pr).procs q).Sound := by
  unfold State.setProc
  by_cases hq : q = p
  · subst hq
    simpa using hp
  · simpa [Function.update_of_ne hq] using h q

/-- A step that leaves the call, the flag and the returns alone. -/
theorem Kept.of_procs (h : Kept s) (hsound : ∀ q, (s'.procs q).Sound)
    (hgrows : ∀ q, (s.procs q).Grows (s'.procs q)) (hstart : s'.starting = s.starting)
    (hboot : s'.bootstrapped = s.bootstrapped) (hready : s'.ready = s.ready) : Kept s' := by
  refine ⟨hsound, ?_, fun p hp hb => ?_, fun p w hp => ?_, fun p hp => ?_⟩
  · rw [hstart, hboot]
    exact h.fresh
  · rw [hstart] at hp
    rw [hboot] at hb
    exact (hgrows p).logged (h.own p hp hb)
  · rw [hstart] at hp
    exact (hgrows p).accepted (h.opened p w hp)
  · rw [hready] at hp
    exact ⟨(hgrows p).logged (h.ready p hp).1, (hgrows p).accepted (h.ready p hp).2⟩

theorem stopStep_same (s : State) (pc : StopPc) :
    (s.stopStep pc).1.procs = s.procs ∧ (s.stopStep pc).1.bootstrapped = s.bootstrapped ∧
      (s.stopStep pc).1.ready = s.ready ∧ (s.stopStep pc).1.starting = s.starting := by
  cases pc <;> exact ⟨rfl, rfl, rfl, rfl⟩

theorem log_kept (h : Kept s) {line : String} (hs : step s (.log p line) = some s') : Kept s' := by
  unfold step at hs
  dsimp only at hs
  split at hs
  · cases hs
    have hlogged : (s.procs p).logged = true →
        ((s.procs p).lines ++ [line]).any (fun line => (percentOf line).any (100 ≤ ·)) = true := by
      intro hl
      rw [List.any_append, Bool.or_eq_true]
      exact .inl hl
    refine h.of_procs (sound_setProc h.sound ⟨fun l hl => ?_, fun pct hr h100 => ?_, fun hr => ?_⟩)
      (grows_setProc ⟨hlogged, id⟩) rfl rfl rfl
    · rcases List.mem_append.1 hl with hl | hl
      · exact List.mem_append_left _ ((h.sound p).unread l hl)
      · exact List.mem_append_right _ hl
    · exact hlogged ((h.sound p).percent pct hr h100)
    · exact hlogged ((h.sound p).done hr)
  · cases hs

/-- A thread reads a line that its process has logged, and sets the flag for such a line only. -/
theorem read_kept (h : Kept s) (hf : Fits s (.read p)) (hs : step s (.read p) = some s') :
    Kept s' := by
  unfold step State.readStep at hs
  dsimp only at hs
  have hsound := h.sound p
  cases hr : (s.procs p).reader with
  | none =>
    rw [hr] at hs
    cases hs
  | some r =>
    rw [hr] at hs
    cases r with
    | next =>
      dsimp only at hs
      split at hs
      · cases hs
      · rename_i line rest hunread
        have hline : line ∈ (s.procs p).lines := hsound.unread line (hunread ▸ List.mem_cons_self)
        cases hs
        refine h.of_procs (sound_setProc h.sound ⟨fun l hl => ?_, fun pct hp h100 => ?_, ?_⟩)
          (grows_setProc ⟨id, id⟩) rfl rfl rfl
        · exact hsound.unread l (hunread ▸ List.mem_cons_of_mem _ hl)
        · refine List.any_eq_true.2 ⟨line, hline, ?_⟩
          dsimp only at hp
          split at hp
          · cases hp
          · cases hpct : percentOf line with
            | none =>
              rw [hpct] at hp
              cases hp
            | some pct' =>
              rw [hpct] at hp
              cases hp
              exact decide_eq_true h100
        · dsimp only
          split
          · intro hdone
            cases hdone
          · cases percentOf line <;> intro hdone <;> cases hdone
    | percent pct =>
      cases hs
      refine h.of_procs (sound_setProc h.sound ⟨hsound.unread, fun pct' hp => ?_, fun hdone => ?_⟩)
        (grows_setProc ⟨id, id⟩) rfl rfl rfl
      · dsimp only at hp
        split at hp <;> cases hp
      · dsimp only at hdone
        split at hdone
        · exact hsound.percent pct hr ‹_›
        · cases hdone
    | done =>
      cases hs
      have hdone := hsound.done hr
      have hgrows : (s.procs p).Grows { s.procs p with reader := some .next } := ⟨id, id⟩
      unfold Fits at hf
      dsimp only at hf
      rw [hr] at hf
      refine ⟨sound_setProc h.sound ⟨hsound.unread, fun pct hp => (by cases hp),
        fun hp => (by cases hp)⟩, fun hown => ?_, fun q hown _ => ?_, fun q w hw => ?_,
        fun q hq => ?_⟩
      · rw [show s.starting.bind StartPc.own = some none from hown] at hf
        exact hf.elim
      · rw [show s.starting.bind StartPc.own = some (some q) from hown] at hf
        rcases hf with rfl | hlogged
        · exact (grows_setProc hgrows p).logged hdone
        · exact (grows_setProc hgrows q).logged hlogged
      · exact (grows_setProc hgrows q).accepted (h.opened q w hw)
      · exact ⟨(grows_setProc hgrows q).logged (h.ready q hq).1,
          (grows_setProc hgrows q).accepted (h.ready q hq).2⟩

/-- A statement that moves the call on and leaves flag, processes and returns alone. -/
theorem Kept.moved (h : Kept s) (hprocs : s'.procs = s.procs) (hready : s'.ready = s.ready)
    (hfresh : s'.starting.bind StartPc.own = some none → s'.bootstrapped = false)
    (hown : ∀ p, s'.starting.bind StartPc.own = some (some p) → s'.bootstrapped = true →
      (s.procs p).logged = true)
    (hopened : ∀ p w, s'.starting = some (.wait p w true) → (s.procs p).accepted = true) :
    Kept s' := by
  refine ⟨?_, hfresh, ?_, ?_, ?_⟩
  · rw [hprocs]
    exact h.sound
  · rw [hprocs]
    exact hown
  · rw [hprocs]
    exact hopened
  · unfold Ready
    rw [hprocs, hready]
    exact h.ready

/-- A statement of `waitForPort` that goes on to another one, or ends the call. -/
theorem Kept.waits (h : Kept s) {w : Wait} {o : Bool} (w' : Wait) (more : Bool)
    (hs : s.starting = some (.wait p w o)) :
    Kept { s with starting := if more then some (.wait p w' o) else none } := by
  have hown : s.starting.bind StartPc.own = some (some p) := by rw [hs]; rfl
  refine h.moved rfl rfl (fun hf => ?_) (fun q hq hb => ?_) fun q w hq => ?_
  · cases more <;> cases hf
  · cases more
    · cases hq
    · cases hq
      exact h.own p hown hb
  · cases more
    · cases hq
    · cases hq
      exact h.opened p _ hs

theorem run_kept (h : Kept s) {ok : Bool} (hf : Fits s (.run ok))
    (hs : step s (.run ok) = some s') : Kept s' := by
  unfold step at hs
  dsimp only at hs
  cases hpc : s.starting with
  | none =>
    rw [hpc] at hs
    cases hs
  | some pc =>
    rw [hpc] at hs
    replace hs : s.startStep ok pc = some s' := hs
    have hboot : s.starting.bind StartPc.own = some none → s.bootstrapped = false := h.fresh
    have hown := h.own
    rw [hpc] at hboot hown
    cases pc with
    | stop pc =>
      cases hs
      obtain ⟨hprocs, -, hready, -⟩ := stopStep_same s pc
      refine h.moved hprocs hready (fun hq => ?_) (fun q hq _ => ?_) fun q w hq => ?_ <;>
        cases hr : (s.stopStep pc).2 <;> rw [hr] at hq <;> cases hq
    | lower =>
      cases hs
      exact h.moved rfl rfl (fun hq => by cases hq) (fun q hq _ => by cases hq)
        fun q w hq => by cases hq
    | unboot =>
      cases hs
      exact h.moved rfl rfl (fun _ => rfl) (fun q hq _ => by cases hq) fun q w hq => by cases hq
    | zero =>
      cases hs
      exact h.moved rfl rfl (fun _ => hboot rfl) (fun q hq _ => by cases hq)
        fun q w hq => by cases hq
    | prepare =>
      cases hs
      refine h.moved rfl rfl (fun _ => hboot rfl) (fun q hq _ => ?_) fun q w hq => ?_ <;>
        cases ok <;> cases hq
    | spawn =>
      cases ok with
      | false =>
        cases hs
        exact h.moved rfl rfl (fun hq => by cases hq) (fun q hq _ => by cases hq)
          fun q w hq => by cases hq
      | true =>
        cases hs
        have hgrows : ∀ q, (s.procs q).Grows
            ((s.setProc s.spawned { s.procs s.spawned with alive := true }).procs q) :=
          grows_setProc ⟨id, id⟩
        have hsound := h.sound s.spawned
        refine ⟨sound_setProc h.sound ⟨hsound.unread, hsound.percent, hsound.done⟩,
          fun hq => (by cases hq), fun q hq hb => ?_, fun q w hq => (by cases hq), fun q hq => ?_⟩
        · rw [show s.bootstrapped = true from hb] at hboot
          cases hboot rfl
        · exact ⟨(hgrows q).logged (h.ready q hq).1, (hgrows q).accepted (h.ready q hq).2⟩
    | publish p =>
      cases hs
      refine h.moved rfl rfl (fun hq => by cases hq) (fun q hq hb => ?_) fun q w hq => by cases hq
      cases hq
      exact hown p rfl hb
    | read p =>
      cases hs
      have hgrows : ∀ q, (s.procs q).Grows
          ((s.setProc p { s.procs p with reader := some .next }).procs q) :=
        grows_setProc ⟨id, id⟩
      refine ⟨sound_setProc h.sound ⟨(h.sound p).unread, fun pct hq => (by cases hq),
        fun hq => (by cases hq)⟩, fun hq => (by cases hq), fun q hq hb => ?_,
        fun q w hq => (by cases hq), fun q hq => ?_⟩
      · cases hq
        exact (hgrows p).logged (hown p rfl hb)
      · exact ⟨(hgrows q).logged (h.ready q hq).1, (hgrows q).accepted (h.ready q hq).2⟩
    | wait p w o =>
      cases w with
      | time =>
        cases hs
        exact h.waits _ _ hpc
      | stopping =>
        cases hs
        have hw := h.waits .alive (!s.stopping) hpc
        cases hstop : s.stopping <;> rw [hstop] at hw <;> exact hw
      | alive =>
        cases hs
        exact h.waits _ _ hpc
      | connect =>
        cases o with
        | true =>
          cases hs
          exact h.waits _ true hpc
        | false =>
          cases ok with
          | false =>
            cases hs
            exact h.waits _ true hpc
          | true =>
            -- whoever listens, it is the process of this call
            have hport : s.port = some (.tor p) := by
              unfold Fits at hf
              rw [hpc] at hf
              exact hf
            unfold State.startStep at hs
            dsimp only at hs
            rw [hport] at hs
            cases hs
            have hgrows : ∀ q, (s.procs q).Grows
                ((s.setProc p { s.procs p with accepted := true }).procs q) :=
              grows_setProc ⟨id, fun _ => rfl⟩
            have hsound := h.sound p
            refine ⟨sound_setProc h.sound ⟨hsound.unread, hsound.percent, hsound.done⟩,
              fun hq => (by cases hq), fun q hq hb => ?_, fun q w hq => ?_, fun q hq => ?_⟩
            · cases hq
              exact (hgrows p).logged (hown p rfl hb)
            · cases hq
              simp [State.setProc]
            · exact ⟨(hgrows q).logged (h.ready q hq).1, (hgrows q).accepted (h.ready q hq).2⟩
      | ready =>
        unfold State.startStep at hs
        dsimp only at hs
        split at hs
        · rename_i hdone
          rw [Bool.and_eq_true] at hdone
          obtain ⟨rfl, hb⟩ := hdone
          cases hs
          refine ⟨h.sound, fun hq => (by cases hq), fun q hq => (by cases hq),
            fun q w hq => (by cases hq), fun q hq => ?_⟩
          rcases List.mem_append.1 hq with hq | hq
          · exact h.ready q hq
          · rw [List.mem_singleton.1 hq]
            exact ⟨hown p rfl hb, h.opened p _ hpc⟩
        · cases hs
          exact h.waits _ true hpc

theorem step_kept (s : State) (a : Act) (s' : State) (h : Kept s) (hf : Fits s a)
    (hs : step s a = some s') : Kept s' := by
  cases a with
  | start =>
    unfold step at hs
    dsimp only at hs
    split at hs
    · cases hs
      exact h.moved rfl rfl (fun hq => by cases hq) (fun q hq _ => by cases hq)
        fun q w hq => by cases hq
    · cases hs
  | run ok => exact run_kept h hf hs
  | stop =>
    cases hs
    exact h.of_procs h.sound (fun q => .refl _) rfl rfl rfl
  | runStop i =>
    unfold step at hs
    dsimp only at hs
    cases hi : s.stops[i]? with
    | none =>
      rw [hi] at hs
      cases hs
    | some pc =>
      rw [hi] at hs
      cases hs
      obtain ⟨hprocs, hboot, hready, hstart⟩ := stopStep_same s pc
      refine h.of_procs (fun q => ?_) (fun q => ?_) hstart hboot hready
      · rw [show _ = s.procs from hprocs]
        exact h.sound q
      · rw [show _ = s.procs from hprocs]
        exact .refl _
  | read p => exact read_kept h hf hs
  | log p line => exact log_kept h hs
  | listen o =>
    unfold step at hs
    dsimp only at hs
    split at hs
    · cases hs
      exact h.of_procs h.sound (fun q => .refl _) rfl rfl rfl
    · cases hs
  | exit p =>
    cases hs
    have hsound := h.sound p
    exact h.of_procs (sound_setProc h.sound ⟨hsound.unread, hsound.percent, hsound.done⟩)
      (grows_setProc ⟨id, id⟩) rfl rfl rfl
  | close =>
    unfold step at hs
    dsimp only at hs
    split at hs
    · cases hs
      exact h.of_procs h.sound (fun q => .refl _) rfl rfl rfl
    · cases hs

theorem init_kept : Kept {} :=
  ⟨fun _ => ⟨fun _ hl => absurd hl List.not_mem_nil, fun _ hp => (by cases hp),
    fun hd => (by cases hd)⟩, fun hf => (by cases hf), fun _ hp => (by cases hp),
    fun _ _ hp => (by cases hp), fun _ hp => absurd hp List.not_mem_nil⟩

/-- In runs in which no other thread sets the flags of a `start` and no other process answers for
its own, what `start` returns true for is ready. -/
theorem ready_means_ready {as : List Act} {s : State} (hf : Meets step Fits {} as)
    (hr : run step {} as = some s) : ∀ p ∈ s.ready, Ready s p :=
  (run_inv step_kept init_kept hf hr).ready

/-- The statements of a `start` up to its waiting; `there` where it has a process to stop. -/
def spawning (there : Bool) : List Act :=
  .start :: List.replicate (if there then 11 else 9) (.run true)

def doneLine : String := "Oct 01 12:00:00.000 [notice] Bootstrapped 100% (done): Done"

/-- A process logs that it is done and listens, and the call finds both. -/
def finished : List Act :=
  spawning false ++ ([.log 0 doneLine, .read 0, .read 0, .read 0, .listen (.tor 0)] : List Act) ++
    (List.replicate 5 (.run true) : List Act)

theorem finished_ready : ∃ s, run step {} finished = some s ∧ s.ready = [0] ∧ ∀ p ∈ s.ready, Ready s p :=
  ⟨_, rfl, by decide, ready_means_ready (by decide : Meets step Fits {} finished) rfl⟩

/-- The deadline of the first call passes while its line is not read; the second call resets the
flags, and then the thread of the first process reads on. -/
def stale : List Act :=
  spawning false ++ ([.log 0 doneLine, .run false] : List Act) ++ spawning true ++
    ([.exit 0, .read 0, .read 0, .read 0, .listen (.tor 1)] : List Act) ++
    (List.replicate 5 (.run true) : List Act)

/-- The second process has logged nothing. -/
theorem stale_not_ready :
    ¬∀ (as : List Act) (s : State), run step {} as = some s → ∀ p ∈ s.ready, Ready s p := by
  intro h
  have hlogged := (h stale _ rfl 1 (by decide)).1
  exact absurd hlogged (by decide)

end Ghajar.Tor
