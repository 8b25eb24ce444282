import Ghajar.Download.Engine

/-!
# A segment's requests

`downloadSegment` asks for what is left of its segment until nothing is left. The replies are
given; in which portions they are read, when a flag is set and when the connection breaks is up to
the run. `segment_ends_iff`: every run is bounded, and every request begins behind the one before,
unless a successful reply that is asked for has no body.
-/

namespace Ghajar.Download

open Run

/-- A worker on its own. `answered` counts the replies; `offsets`, where the requests began, newest
first, is not in the source. -/
structure Fetch where
  worker : Worker
  disk : Disk
  stop : Bool
  answered : Nat
  offsets : List Nat

inductive Move where
  /-- The download is paused or cancelled. -/
  | halt
  | work (n : Nat)
  | answer
  | throw
  deriving DecidableEq, Repr

namespace Fetch

def start (seg : Segment) (d : Disk) : Fetch := ⟨⟨seg, .loop⟩, d, false, 0, []⟩

/-- A request adds where it begins. -/
def asking (phase : Phase) (offsets : List Nat) : List Nat :=
  match phase with
  | .get from_ => from_ :: offsets
  | _ => offsets

def step (replies : Nat → Reply) (f : Fetch) : Move → Option Fetch
  | .halt => if f.stop then none else some { f with stop := true }
  | .work n => do
    let (d, w) ← f.worker.work f.disk f.stop n
    return { f with worker := w, disk := d, offsets := asking w.phase f.offsets }
  | .answer => do
    let (d, w) ← f.worker.reply f.disk (replies f.answered)
    return { f with worker := w, disk := d, answered := f.answered + 1 }
  | .throw => do
    let (d, w) ← f.worker.throw f.disk
    return { f with worker := w, disk := d }

end Fetch

section Ends

variable (replies : Nat → Reply) (seg : Segment)

/-- How much the first replies send. -/
def bodies : Nat → Nat
  | 0 => 0
  | n + 1 => bodies n + (replies n).body.length

/-- The replies before were good and left something to ask for. -/
def Asked (n : Nat) : Prop :=
  (∀ i < n, success (replies i).status = true) ∧
    (seg.start + seg.downloaded + bodies replies n : Int) ≤ seg.last

/-- A good reply without a byte. -/
def Reply.idle (r : Reply) : Prop := success r.status = true ∧ r.body = []

/-- However it is read, stopped or interrupted: all runs are shorter than some number, and every
request is for later bytes than those before. -/
structure Ends (d : Disk) : Prop where
  bounded : ∃ N, ∀ moves f, run (Fetch.step replies) (.start seg d) moves = some f →
    moves.length ≤ N
  advances : ∀ moves f, run (Fetch.step replies) (.start seg d) moves = some f →
    f.offsets.Pairwise (· > ·)

end Ends

/-- A worker that has not ended goes on, whatever is read or answered. -/
theorem fetch_enabled (replies : Nat → Reply) (f : Fetch) (h : f.worker.phase ≠ .ended) :
    (f.step replies (.work 1)).isSome ∨ (f.step replies .answer).isSome := by
  unfold Fetch.step Worker.work Worker.reply
  cases hp : f.worker.phase with
  | ended => exact absurd hp h
  | loop =>
    left
    simp only
    split <;> rfl
  | get from_ =>
    right
    simp only
    split
    · rfl
    · split <;> rfl
  | copy fd position offset body =>
    left
    simp only
    split
    · rfl
    · rename_i hgo
      have hne : body ≠ [] := by
        intro he
        simp [he] at hgo
      have hlen : 1 ≤ body.length := List.length_pos_iff.2 hne
      have hlim : 1 ≤ readLimit f.worker.segment.last position := by
        unfold readLimit BUFFER_SIZE
        omega
      rw [if_pos ⟨le_rfl, hlen, hlim⟩]
      rfl

section Invariant

variable {replies : Nat → Reply} {seg : Segment} {f f' : Fetch} {d : Disk} {k n : Nat}

/-! ## What a step can do -/

theorem work_loop (hp : f.worker.phase = .loop) (h : f.step replies (.work n) = some f') :
    (f.worker.segment.full ∨ f.stop = true) ∧
        f' = { f with worker := ⟨f.worker.segment, .ended⟩ } ∨
      ¬f.worker.segment.full ∧ f.stop = false ∧
        f' = { f with
          worker := ⟨f.worker.segment,
            .get (f.worker.segment.start + f.worker.segment.downloaded)⟩
          offsets := (f.worker.segment.start + f.worker.segment.downloaded) :: f.offsets } := by
  simp only [Fetch.step, Worker.work, hp] at h
  split at h
  · rename_i hend
    cases h
    exact .inl ⟨by simpa using hend, rfl⟩
  · rename_i hgo
    cases h
    simp only [Bool.or_eq_true, decide_eq_true_eq, not_or, Bool.not_eq_true] at hgo
    exact .inr ⟨hgo.1, hgo.2, rfl⟩

theorem work_copy {fd position : Nat} {offset : Option Nat} {body : List UInt8}
    (hp : f.worker.phase = .copy fd position offset body)
    (h : f.step replies (.work n) = some f') :
    (f.worker.segment.last < position ∨ f.stop = true ∨ body = []) ∧
        f' = { f with worker := ⟨f.worker.segment, .loop⟩ } ∨
      (position ≤ f.worker.segment.last ∧ 1 ≤ n ∧ n ≤ body.length ∧
        n ≤ readLimit f.worker.segment.last position) ∧
        ∃ d', f' = { f with
          worker := ⟨f.worker.advance n, .copy fd (position + n) (offset.map (· + n)) (body.drop n)⟩
          disk := d' } := by
  simp only [Fetch.step, Worker.work, hp] at h
  split at h
  · rename_i hend
    cases h
    simp only [Bool.or_eq_true, decide_eq_true_eq, List.isEmpty_iff, or_assoc] at hend
    exact .inl ⟨hend, rfl⟩
  · rename_i hgo
    simp only [Bool.or_eq_true, decide_eq_true_eq, List.isEmpty_iff, not_or, not_lt] at hgo
    split at h
    · rename_i hn
      cases h
      exact .inr ⟨⟨hgo.1.1, hn⟩, _, rfl⟩
    · cases h

theorem answer_get {from_ : Nat} (hp : f.worker.phase = .get from_)
    (h : f.step replies .answer = some f') :
    f' = { f with worker := ⟨f.worker.segment, .ended⟩, answered := f.answered + 1 } ∨
      success (replies f.answered).status = true ∧ ∃ d' fd, f' = { f with
        worker := ⟨f.worker.segment,
          .copy fd from_ (replies f.answered).base (replies f.answered).body⟩
        disk := d'
        answered := f.answered + 1 } := by
  simp only [Fetch.step, Worker.reply, hp] at h
  split at h
  · cases h
    exact .inl rfl
  · split at h
    · rename_i hs
      cases h
      exact .inr ⟨hs, _, _, rfl⟩
    · cases h
      exact .inl rfl

theorem throw_ended (h : f.step replies .throw = some f') :
    f.worker.phase ≠ .ended ∧ f' = { f with worker := ⟨f.worker.segment, .ended⟩ } := by
  simp only [Fetch.step, Worker.throw] at h
  split at h
  · cases h
  · rename_i hne
    cases h
    exact ⟨hne, rfl⟩

/-! ## The invariant -/

/-- Every reply so far was good and has been read. -/
structure Going (replies : Nat → Reply) (seg : Segment) (downloaded answered : Nat) : Prop where
  read : downloaded = seg.downloaded + bodies replies answered
  good : ∀ i < answered, success (replies i).status = true
  counted : answered ≤ bodies replies answered

/-- What holds where the worker is. -/
def Placed (replies : Nat → Reply) (seg : Segment) (f : Fetch) : Prop :=
  let position := f.worker.segment.start + f.worker.segment.downloaded
  match f.worker.phase with
  | .loop => f.stop = true ∨ f.worker.segment.full ∨
      Going replies seg f.worker.segment.downloaded f.answered ∧ ∀ o ∈ f.offsets, o < position
  | .get from_ => from_ = position ∧ ¬f.worker.segment.full ∧
      Going replies seg f.worker.segment.downloaded f.answered ∧ ∀ o ∈ f.offsets, o ≤ position
  | .copy _ at_ _ body => at_ = position ∧
      f.worker.segment.downloaded + body.length = seg.downloaded + bodies replies f.answered ∧
      (∀ i < f.answered, success (replies i).status = true) ∧
      (body = [] → f.answered ≤ bodies replies f.answered ∧ ∀ o ∈ f.offsets, o < position) ∧
      ∀ o ∈ f.offsets, o ≤ position
  | .ended => True

/-- How far a turn of the loop has come. -/
def Phase.weight : Phase → Nat
  | .loop => 1
  | .get _ => 2
  | .copy .. => 0
  | .ended => 3

structure FetchInv (replies : Nat → Reply) (seg : Segment) (moves : Nat) (f : Fetch) : Prop where
  start : f.worker.segment.start = seg.start
  last : f.worker.segment.last = seg.last
  grown : seg.downloaded ≤ f.worker.segment.downloaded
  within : (f.worker.segment.start + f.worker.segment.downloaded : Int) ≤
    max (seg.last + 1) (seg.start + seg.downloaded)
  answered : f.answered + seg.downloaded ≤ f.worker.segment.downloaded + 1
  moves : moves + seg.downloaded ≤ 3 * f.answered + f.worker.segment.downloaded +
    f.stop.toNat + f.worker.phase.weight
  offsets : f.offsets.Pairwise (· > ·)
  placed : Placed replies seg f

theorem start_inv : FetchInv replies seg 0 (.start seg d) := by
  refine ⟨rfl, rfl, le_rfl, le_max_right _ _, ?_, ?_, .nil, .inr (.inr ⟨⟨rfl, ?_, ?_⟩, ?_⟩)⟩
  · show 0 + seg.downloaded ≤ seg.downloaded + 1
    omega
  · show 0 + seg.downloaded ≤ 3 * 0 + seg.downloaded + 0 + 1
    omega
  · intro i hi
    exact absurd hi (Nat.not_lt_zero i)
  · exact Nat.zero_le _
  · intro o ho
    cases ho

/-- From the head of the loop a worker ends or asks. -/
theorem loop_inv (hi : FetchInv replies seg k f) (hp : f.worker.phase = .loop)
    (h : f.step replies (.work n) = some f') : FetchInv replies seg (k + 1) f' := by
  obtain ⟨hs, hl, hg, hw, ha, hm, ho, hpl⟩ := hi
  rw [Placed, hp] at hpl
  rw [hp, Phase.weight] at hm
  rcases work_loop hp h with ⟨-, rfl⟩ | ⟨hfull, hstop, rfl⟩
  · refine ⟨hs, hl, hg, hw, ha, ?_, ho, trivial⟩
    dsimp only [Phase.weight]
    omega
  · obtain ⟨hgoing, hlt⟩ := (hpl.resolve_left (by simp [hstop])).resolve_left hfull
    refine ⟨hs, hl, hg, hw, ha, ?_, .cons hlt ho, rfl, hfull, hgoing, ?_⟩
    · dsimp only [Phase.weight]
      omega
    · intro o hmem
      rcases List.mem_cons.1 hmem with rfl | hmem
      · exact le_rfl
      · exact (hlt o hmem).le

/-- A read takes some of the body, or the copy is over. -/
theorem copy_inv {fd position : Nat} {offset : Option Nat} {body : List UInt8}
    (hi : FetchInv replies seg k f) (hp : f.worker.phase = .copy fd position offset body)
    (h : f.step replies (.work n) = some f') : FetchInv replies seg (k + 1) f' := by
  obtain ⟨hs, hl, hg, hw, ha, hm, ho, hpl⟩ := hi
  rw [Placed, hp] at hpl
  rw [hp, Phase.weight] at hm
  obtain ⟨rfl, hread, hgood, hempty, hle⟩ := hpl
  rcases work_copy hp h with ⟨hend, rfl⟩ | ⟨⟨hin, hn1, hn, hlim⟩, d', rfl⟩
  · refine ⟨hs, hl, hg, hw, ha, ?_, ho, ?_⟩
    · dsimp only [Phase.weight]
      omega
    · rcases hend with hfull | hstop | hnil
      · refine .inr (.inl ?_)
        push_cast at hfull
        exact hfull
      · exact .inl hstop
      · obtain ⟨hc, hlt⟩ := hempty hnil
        subst hnil
        exact .inr (.inr ⟨⟨hread, hgood, hc⟩, hlt⟩)
  · have hreach := readLimit_le hin
    have hlen : (body.drop n).length = body.length - n := List.length_drop
    refine ⟨hs, hl, ?_, ?_, ?_, ?_, ho, Nat.add_assoc _ _ _, ?_, hgood, ?_, ?_⟩
    · exact hg.trans (Nat.le_add_right _ _)
    · show (f.worker.segment.start + (f.worker.segment.downloaded + n : Nat) : Int) ≤ _
      push_cast at hreach ⊢
      omega
    · show f.answered + seg.downloaded ≤ f.worker.segment.downloaded + n + 1
      omega
    · dsimp only [Phase.weight]
      show k + 1 + _ ≤ 3 * f.answered + (f.worker.segment.downloaded + n) + f.stop.toNat + 0
      omega
    · show f.worker.segment.downloaded + n + (body.drop n).length =
        seg.downloaded + bodies replies f.answered
      omega
    · intro hnil
      have hall : body.length ≤ n := by
        rw [hnil, List.length_nil] at hlen
        omega
      refine ⟨?_, fun o hmem => ?_⟩
      · show f.answered ≤ bodies replies f.answered
        omega
      show o < f.worker.segment.start + (f.worker.segment.downloaded + n)
      have := hle o hmem
      omega
    · intro o hmem
      show o ≤ f.worker.segment.start + (f.worker.segment.downloaded + n)
      have := hle o hmem
      omega

/-- **One step keeps the invariant**, where no reply that is asked for is good and empty. -/
theorem step_fetchInv (hc : ∀ n, Asked replies seg n → ¬(replies n).idle) {m : Move}
    (hi : FetchInv replies seg k f) (h : f.step replies m = some f') :
    FetchInv replies seg (k + 1) f' := by
  cases m with
  | halt =>
    obtain ⟨hs, hl, hg, hw, ha, hm, ho, hpl⟩ := hi
    simp only [Fetch.step] at h
    split at h
    · cases h
    · rename_i hstop
      cases h
      refine ⟨hs, hl, hg, hw, ha, ?_, ho, ?_⟩
      · simp only [hstop, Bool.toNat_false, Bool.toNat_true] at hm ⊢
        omega
      · unfold Placed at hpl ⊢
        cases hp : f.worker.phase with
        | loop => exact .inl rfl
        | _ =>
          rw [hp] at hpl
          exact hpl
  | work n =>
    cases hp : f.worker.phase with
    | loop => exact loop_inv hi hp h
    | copy fd position offset body => exact copy_inv hi hp h
    | get from_ => simp [Fetch.step, Worker.work, hp] at h
    | ended => simp [Fetch.step, Worker.work, hp] at h
  | answer =>
    cases hp : f.worker.phase with
    | get from_ =>
      obtain ⟨hs, hl, hg, hw, ha, hm, ho, hpl⟩ := hi
      rw [Placed, hp] at hpl
      rw [hp, Phase.weight] at hm
      obtain ⟨rfl, hfull, ⟨hread, hgood, hcounted⟩, hle⟩ := hpl
      have hasked : Asked replies seg f.answered := by
        refine ⟨hgood, ?_⟩
        unfold Segment.full at hfull
        omega
      rcases answer_get hp h with rfl | ⟨hs', d', fd, rfl⟩
      · refine ⟨hs, hl, hg, hw, ?_, ?_, ho, trivial⟩
        · dsimp only
          omega
        · dsimp only [Phase.weight]
          omega
      · have hbody : (replies f.answered).body ≠ [] := fun hnil =>
          hc _ hasked ⟨hs', hnil⟩
        refine ⟨hs, hl, hg, hw, ?_, ?_, ho, rfl, ?_, ?_, fun hnil => absurd hnil hbody, hle⟩
        · dsimp only
          omega
        · dsimp only [Phase.weight]
          omega
        · dsimp only [bodies]
          omega
        · intro i hlt
          rcases Nat.lt_succ_iff_lt_or_eq.1 hlt with hlt | rfl
          · exact hgood i hlt
          · exact hs'
    | loop => simp [Fetch.step, Worker.reply, hp] at h
    | copy fd position offset body => simp [Fetch.step, Worker.reply, hp] at h
    | ended => simp [Fetch.step, Worker.reply, hp] at h
  | throw =>
    obtain ⟨hne, rfl⟩ := throw_ended h
    obtain ⟨hs, hl, hg, hw, ha, hm, ho, hpl⟩ := hi
    refine ⟨hs, hl, hg, hw, ha, ?_, ho, trivial⟩
    have hweight : f.worker.phase.weight ≤ 2 := by
      cases hp : f.worker.phase with
      | ended => exact absurd hp hne
      | _ => simp [Phase.weight]
    dsimp only [Phase.weight]
    omega

theorem run_fetchInv (hc : ∀ n, Asked replies seg n → ¬(replies n).idle) {moves : List Move}
    (hi : FetchInv replies seg k f) (h : run (Fetch.step replies) f moves = some f') :
    FetchInv replies seg (k + moves.length) f' := by
  induction moves generalizing k f with
  | nil =>
    cases h
    exact hi
  | cons m moves ih =>
    simp only [run] at h
    cases hs : f.step replies m with
    | none => simp [hs] at h
    | some g =>
      rw [hs] at h
      have := ih (step_fetchInv hc hi hs) h
      rwa [List.length_cons, Nat.add_comm moves.length, ← Nat.add_assoc]

/-! ## A reply without a byte -/

/-- A run of two parts. -/
theorem run_trans {moves moves' : List Move} {g : Fetch}
    (h1 : run (Fetch.step replies) f moves = some f')
    (h2 : run (Fetch.step replies) f' moves' = some g) :
    run (Fetch.step replies) f (moves ++ moves') = some g := by
  induction moves generalizing f with
  | nil =>
    cases h1
    exact h2
  | cons m moves ih =>
    simp only [run, List.cons_append] at h1 ⊢
    cases hs : f.step replies m with
    | none => simp [hs] at h1
    | some t =>
      rw [hs] at h1
      exact ih h1

/-- At the head of the loop, with so much read and no flag set. -/
structure AtLoop (seg : Segment) (read answered : Nat) (f : Fetch) : Prop where
  phase : f.worker.phase = .loop
  stop : f.stop = false
  start : f.worker.segment.start = seg.start
  last : f.worker.segment.last = seg.last
  read : f.worker.segment.downloaded = seg.downloaded + read
  answered : f.answered = answered

/-- A body that ends within the segment is read, byte by byte. -/
theorem reads_body {fd position : Nat} {offset : Option Nat} {body : List UInt8} {read : Nat}
    (hp : f.worker.phase = .copy fd position offset body) (hstop : f.stop = false)
    (hs : f.worker.segment.start = seg.start) (hl : f.worker.segment.last = seg.last)
    (hr : f.worker.segment.downloaded = seg.downloaded + read)
    (hpos : position = seg.start + seg.downloaded + read)
    (hin : (seg.start + seg.downloaded + read + body.length : Int) ≤ seg.last) :
    ∃ moves g, run (Fetch.step replies) f moves = some g ∧
      AtLoop seg (read + body.length) f.answered g := by
  induction body generalizing f position offset read with
  | nil =>
    refine ⟨[.work 0], { f with worker := ⟨f.worker.segment, .loop⟩ }, ?_, rfl, hstop, hs, hl, hr,
      rfl⟩
    simp [run, Fetch.step, Worker.work, hp, Fetch.asking]
  | cons b body ih =>
    have hlen : ((b :: body).length : Int) = body.length + 1 := by simp
    have hlim : 1 ≤ readLimit f.worker.segment.last position := by
      unfold readLimit BUFFER_SIZE
      omega
    have hpast : ¬f.worker.segment.last < (position : Int) := by omega
    let next : Fetch :=
      { f with
        worker := ⟨f.worker.advance 1, .copy fd (position + 1) (offset.map (· + 1)) body⟩
        disk := f.disk.update fd ((f.disk.file fd).write position (sent offset [b])) }
    have hstep : f.step replies (.work 1) = some next := by
      simp [Fetch.step, Worker.work, hp, hpast, hstop, hlim, Fetch.asking, next]
    have hread : next.worker.segment.downloaded = seg.downloaded + (read + 1) := by
      show f.worker.segment.downloaded + 1 = _
      omega
    obtain ⟨moves, g, hrun, hg⟩ : ∃ moves g, run (Fetch.step replies) next moves = some g ∧
        AtLoop seg (read + 1 + body.length) f.answered g :=
      ih rfl hstop hs hl hread (by omega) (by omega)
    refine ⟨.work 1 :: moves, g, ?_, ?_⟩
    · simp only [run, hstep]
      exact hrun
    · rw [show read + (b :: body).length = read + 1 + body.length by simp; omega]
      exact hg

/-- The replies before one that is asked for can all be read to their end. -/
theorem reaches_loop {n : Nat} (h : Asked replies seg n) (d : Disk) :
    ∃ moves g, run (Fetch.step replies) (.start seg d) moves = some g ∧
      AtLoop seg (bodies replies n) n g := by
  induction n with
  | zero => exact ⟨[], _, rfl, rfl, rfl, rfl, rfl, rfl, rfl⟩
  | succ n ih =>
    obtain ⟨hgood, hin⟩ := h
    rw [bodies] at hin
    push_cast at hin
    obtain ⟨moves, g, hrun, hg⟩ := ih ⟨fun i hi => hgood i (by omega), by omega⟩
    have hfull : ¬g.worker.segment.full := by
      unfold Segment.full
      rw [hg.start, hg.last, hg.read]
      push_cast
      omega
    have hsucc := hgood n (Nat.lt_succ_self n)
    have h416 : (replies n).status ≠ 416 := by
      intro he
      simp [success, he] at hsucc
    let from_ := g.worker.segment.start + g.worker.segment.downloaded
    let copying : Fetch :=
      { g with
        worker := ⟨g.worker.segment,
          .copy g.disk.openPart.2 from_ (replies n).base (replies n).body⟩
        disk := g.disk.openPart.1
        answered := n + 1
        offsets := from_ :: g.offsets }
    have hask : run (Fetch.step replies) g [.work 0, .answer] = some copying := by
      simp [run, Fetch.step, Worker.work, Worker.reply, hg.phase, hfull, hg.stop, Fetch.asking,
        hg.answered, h416, hsucc, copying, from_]
    have hposition : from_ = seg.start + seg.downloaded + bodies replies n := by
      show g.worker.segment.start + g.worker.segment.downloaded = _
      rw [hg.start, hg.read]
      omega
    have hreads : ∃ moves g', run (Fetch.step replies) copying moves = some g' ∧ AtLoop seg _ _ g' :=
      reads_body rfl hg.stop hg.start hg.last hg.read hposition (by omega)
    obtain ⟨moves', g', hrun', hg'⟩ := hreads
    exact ⟨_, g', run_trans (run_trans hrun hask) hrun', hg'⟩

/-- After a good reply without a byte the same bytes are asked for again. -/
theorem asks_again {n : Nat} (ha : Asked replies seg n) (hidle : (replies n).idle) (d : Disk) :
    ∃ moves g, run (Fetch.step replies) (.start seg d) moves = some g ∧
      ¬g.offsets.Pairwise (· > ·) := by
  obtain ⟨moves, g, hrun, hg⟩ := reaches_loop ha d
  obtain ⟨hsucc, hnil⟩ := hidle
  have hfull : ¬g.worker.segment.full := by
    have := ha.2
    unfold Segment.full
    rw [hg.start, hg.last, hg.read]
    push_cast
    omega
  have h416 : (replies n).status ≠ 416 := by
    intro he
    simp [success, he] at hsucc
  let from_ := g.worker.segment.start + g.worker.segment.downloaded
  let again : Fetch :=
    { g with
      worker := ⟨g.worker.segment, .get from_⟩
      disk := g.disk.openPart.1
      answered := n + 1
      offsets := from_ :: from_ :: g.offsets }
  have hturn : run (Fetch.step replies) g [.work 0, .answer, .work 0, .work 0] = some again := by
    simp [run, Fetch.step, Worker.work, Worker.reply, hg.phase, hfull, hg.stop, Fetch.asking,
      hg.answered, h416, hsucc, hnil, again, from_]
  refine ⟨_, again, run_trans hrun hturn, fun hpair => ?_⟩
  exact absurd ((List.pairwise_cons.1 hpair).1 from_ (.head _)) (Nat.lt_irrefl _)

/-- **A segment's requests end**, each behind the one before, exactly when no good reply that is
asked for comes without a byte. -/
theorem segment_ends_iff (replies : Nat → Reply) (seg : Segment) (d : Disk) :
    Ends replies seg d ↔ ∀ n, Asked replies seg n → ¬(replies n).idle := by
  constructor
  · intro h n ha hidle
    obtain ⟨moves, g, hrun, hpair⟩ := asks_again ha hidle d
    exact hpair (h.advances moves g hrun)
  · intro hc
    have hinv := fun moves f (h : run (Fetch.step replies) (.start seg d) moves = some f) =>
      run_fetchInv hc start_inv h
    refine ⟨⟨4 * (seg.last + 1 - seg.start - seg.downloaded).toNat + 7, fun moves f h => ?_⟩,
      fun moves f h => (hinv moves f h).offsets⟩
    obtain ⟨hs, -, -, hw, ha, hm, -, -⟩ := hinv moves f h
    have hstop : f.stop.toNat ≤ 1 := Bool.toNat_le _
    have hweight : f.worker.phase.weight ≤ 3 := by
      cases f.worker.phase <;> simp [Phase.weight]
    rw [hs] at hw
    omega

end Invariant

/-- A server that always answers that there is nothing: it is asked for ever. -/
theorem no_content_again :
    ¬Ends (fun _ => ⟨204, none, []⟩) ⟨0, 0, 0, 9⟩ ⟨none, []⟩ := by
  intro h
  have hasked : Asked (fun _ => ⟨204, none, []⟩) ⟨0, 0, 0, 9⟩ 0 :=
    ⟨fun i hi => absurd hi (Nat.not_lt_zero i), by decide⟩
  obtain ⟨moves, g, hrun, hpair⟩ := asks_again hasked ⟨rfl, rfl⟩ ⟨none, []⟩
  exact hpair (h.advances moves g hrun)

end Ghajar.Download
