import Ghajar.Download.Engine

/-!
# Completed means downloaded

`Right f o` says that the part file holds at `o` a byte the server sent for `o`.
In a run that meets the condition (`Careful`) a counter counts only right bytes
(`Kept`, `Sound`), so a record is completed with every byte right:
`completed_whole`. `notSatisfiable_completed` is a record completed without one.
-/

namespace Ghajar.Download

open Run RandomFile

def Right (f : PartFile) (o : Nat) : Prop := f.Holds (fun c => c.offset = some o) o

def Whole (f : PartFile) (total : Int) : Prop := ∀ o : Nat, (o : Int) < total → Right f o

/-! ## The condition -/

/-- A reply is used only if it begins where it was asked to, and the part is still there. -/
def CarefulReply (d : Disk) (j : Job) (w : Worker) (r : Reply) : Prop :=
  match w.phase with
  | .get from_ =>
    r.status ≠ 416 → success r.status = true →
      r.base = some from_ ∧ (d.part = none → j.cancelled = true)
  | _ => True

/-- A plan is made for a length that is known, the part is made anew only while
nothing is counted, a job completes only after every worker has filled its segment. -/
def CarefulMain (s : Sys) (j : Job) : Prop :=
  match j.phase with
  | .create => j.recreates s.disk = true → ∀ seg ∈ j.item.segments, seg.downloaded = 0
  | .move =>
    s.disk.part ≠ none →
      (∀ w ∈ j.workers, w.segment.full) ∧ (j.item.totalBytes ≤ 0 → s.disk.partLength = 0)
  | _ => True

/-- The condition on a step; a job starts only while no other runs. -/
def Careful (s : Sys) : Act → Prop
  | .start => ∀ j ∈ s.jobs, j.phase = .ended
  | .head n _ => ∀ j ∈ s.jobs[n]?, j.item.segments = []
  | .main n => ∀ j ∈ s.jobs[n]?, CarefulMain s j
  | .reply n k r => ∀ j ∈ s.jobs[n]?, ∀ w ∈ j.workers[k]?, CarefulReply s.disk j w r
  | _ => True

instance (d : Disk) (j : Job) (w : Worker) (r : Reply) : Decidable (CarefulReply d j w r) := by
  unfold CarefulReply
  split <;> infer_instance

instance (s : Sys) (j : Job) : Decidable (CarefulMain s j) := by
  unfold CarefulMain
  split <;> infer_instance

instance (s : Sys) (a : Act) : Decidable (Careful s a) := by
  unfold Careful
  split <;> infer_instance

/-! ## What the counters count -/

def Counted (segs : List Segment) (f : PartFile) : Prop :=
  ∀ seg ∈ segs, ∀ o, seg.start ≤ o → o < seg.start + seg.downloaded → Right f o

/-- The part, where it exists, has what is counted. -/
def Kept (segs : List Segment) (d : Disk) : Prop :=
  ∀ fd, d.part = some fd → Counted segs (d.file fd)

/-- A record that can be taken up where it was left. -/
structure Resumable (item : Item) (d : Disk) : Prop where
  covers : 0 < item.totalBytes → item.segments = [] ∨ Covers item.segments item.totalBytes
  kept : Kept item.segments d

def WorkerOk (d : Disk) (w : Worker) : Prop :=
  match w.phase with
  | .get from_ => from_ = w.segment.start + w.segment.downloaded
  | .copy fd position offset _ =>
    position = w.segment.start + w.segment.downloaded ∧ offset = some position ∧
      fd < d.files.length ∧ ∀ p, d.part = some p → p = fd
  | _ => True

structure Sound (d : Disk) (j : Job) : Prop where
  workers : j.workers ≠ []
  covers : 0 < j.item.totalBytes → Covers (j.workers.map (·.segment)) j.item.totalBytes
  length : 0 < j.item.totalBytes → ∀ fd, d.part = some fd →
    ((d.file fd).length : Int) = j.item.totalBytes
  kept : Kept (j.workers.map (·.segment)) d
  each : ∀ w ∈ j.workers, WorkerOk d w

/-- No worker runs. -/
def Job.quiet (j : Job) : Prop := ∀ w ∈ j.workers, w.phase = .ended

def JobOk (d : Disk) (j : Job) : Prop :=
  match j.phase with
  | .probe => j.workers = [] ∧ Kept j.item.segments d
  | .plan => j.workers = [] ∧ Resumable j.item d
  | .create =>
    j.workers = [] ∧ (0 < j.item.totalBytes → Covers j.item.segments j.item.totalBytes) ∧
      Kept j.item.segments d ∧ j.item.segments ≠ []
  | .join => j.cancelled = true ∨ Sound d j
  | .checkPaused | .measure | .move => j.quiet ∧ Sound d j
  | .ended => j.quiet

/-- The job has stored its record as running. -/
def Main.past : Main → Bool
  | .create | .join | .checkPaused | .measure | .move => true
  | _ => false

/-- The states a record is taken up from with its counters. -/
def Item.open (i : Item) : Prop := i.state = .paused ∨ i.state = .queued

structure Inv (s : Sys) : Prop where
  opened : ∀ fd, s.disk.part = some fd → fd < s.disk.files.length
  single : ∀ (a b : Nat) (ja jb : Job), s.jobs[a]? = some ja → s.jobs[b]? = some jb →
    ja.phase ≠ .ended → jb.phase ≠ .ended → a = b
  idle : s.stored.open → Resumable s.stored s.disk
  past : ∀ j ∈ s.jobs, j.phase.past = true → s.stored.open → s.stored.segments = []
  job : ∀ j ∈ s.jobs, JobOk s.disk j
  completed : s.stored.state = .completed →
    ∃ f, s.target = some f ∧ Whole f s.stored.totalBytes

theorem counted_zero {segs : List Segment} (h : ∀ seg ∈ segs, seg.downloaded = 0)
    (f : PartFile) : Counted segs f := by
  intro seg hs o hl hr
  have := h seg hs
  omega

theorem resumable_nil {item : Item} (h : item.segments = []) (d : Disk) : Resumable item d := by
  refine ⟨fun _ => .inl h, fun fd _ seg hs => ?_⟩
  rw [h] at hs
  cases hs

/-! ## The disk -/

theorem file_update {d : Disk} {fd : Nat} {f : PartFile} (h : fd < d.files.length) :
    (d.update fd f).file fd = f := by
  simp [Disk.file, Disk.update, List.getD, h]

theorem file_update_ne {d : Disk} {fd fd' : Nat} {f : PartFile} (h : fd ≠ fd') :
    (d.update fd f).file fd' = d.file fd' := by
  simp [Disk.file, Disk.update, List.getD, List.getElem?_set_ne h]

theorem openPart_lt {d : Disk} (h : ∀ fd, d.part = some fd → fd < d.files.length) :
    d.openPart.1.part = some d.openPart.2 ∧ d.openPart.2 < d.openPart.1.files.length := by
  unfold Disk.openPart
  split
  · rename_i fd hp
    exact ⟨hp, h fd hp⟩
  · exact ⟨rfl, by simp⟩

theorem openPart_some {d : Disk} {fd : Nat} (h : d.part = some fd) : d.openPart = (d, fd) := by
  unfold Disk.openPart
  rw [h]

/-! ## Workers -/

/-- The bytes of a reply that is read from `position` on are right there. -/
theorem sent_right {position m : Nat} {body : List UInt8} {c : Sent}
    (h : (sent (some position) body)[m]? = some c) : c.offset = some (position + m) := by
  simp only [sent, List.getElem?_mapIdx, Option.map_eq_some_iff] at h
  obtain ⟨b, -, rfl⟩ := h
  simp [Nat.add_comm]

theorem sent_length {offset : Option Nat} {body : List UInt8} :
    (sent offset body).length = body.length := by simp [sent]

/-- What one step of a worker may do: it keeps what is right, and counts what it wrote. -/
structure Advances (d d' : Disk) (w w' : Worker) : Prop where
  part : d'.part = d.part
  files : d'.files.length = d.files.length
  segment : w'.segment.start = w.segment.start ∧ w'.segment.last = w.segment.last
  right : ∀ fd o, Right (d.file fd) o → Right (d'.file fd) o
  length : ∀ fd total, w.segment.last < total → ((d.file fd).length : Int) = total →
    ((d'.file fd).length : Int) = total
  counted : ∀ fd, d.part = some fd → Counted [w.segment] (d.file fd) →
    Counted [w'.segment] (d'.file fd)
  ok : WorkerOk d' w'

/-- A step that touches neither the disk nor the segment. -/
theorem Advances.phase {d : Disk} {w : Worker} {p : Phase} (h : WorkerOk d { w with phase := p }) :
    Advances d d w { w with phase := p } :=
  ⟨rfl, rfl, ⟨rfl, rfl⟩, fun _ _ h => h, fun _ _ _ h => h, fun _ _ h => h, h⟩

theorem write_advances {d : Disk} {seg : Segment} {fd position n : Nat} {body : List UInt8}
    (hw : WorkerOk d ⟨seg, .copy fd position (some position) body⟩)
    (hin : (position : Int) ≤ seg.last) (hn : n ≤ body.length)
    (hlim : n ≤ readLimit seg.last position) :
    Advances d (d.update fd ((d.file fd).write position (sent (some position) (body.take n))))
      ⟨seg, .copy fd position (some position) body⟩
      ⟨{ seg with downloaded := seg.downloaded + n },
        .copy fd (position + n) (some (position + n)) (body.drop n)⟩ := by
  obtain ⟨hpos, -, hfd, hpart⟩ := hw
  have hpos : position = seg.start + seg.downloaded := hpos
  have hlen : (sent (some position) (body.take n)).length = n := by
    rw [sent_length, List.length_take]
    omega
  have hwrite : ∀ m c, (sent (some position) (body.take n))[m]? = some c →
      c.offset = some (position + m) := fun m c => sent_right
  refine ⟨rfl, by simp [Disk.update], ⟨rfl, rfl⟩, fun fd' o ho => ?_, fun fd' total hl hlt => ?_,
    fun fd' hp hc => ?_, ?_, rfl, by simpa [Disk.update] using hfd, hpart⟩
  · by_cases he : fd = fd'
    · subst he
      rw [file_update hfd]
      refine holds_write ho fun m c hm hmo => ?_
      rw [hwrite m c hm, hmo]
    · rwa [file_update_ne he]
  · by_cases he : fd = fd'
    · subst he
      rw [file_update hfd, length_write]
      · exact hlt
      · have := readLimit_le hin
        rw [hlen]
        simp only at hl
        omega
    · rwa [file_update_ne he]
  · obtain rfl := hpart fd' hp
    intro seg' hs o hl hr
    rw [List.mem_singleton.1 hs] at hl hr
    rw [file_update hfd]
    simp only at hl hr
    by_cases ho : o < position
    · have hold := hc seg List.mem_cons_self o hl (by omega)
      refine holds_write hold fun m c hm hmo => ?_
      rw [hwrite m c hm, hmo]
    · refine holds_written (by omega) (by omega) fun c hcell => ?_
      rw [hwrite _ c hcell]
      congr 1
      omega
  · show position + n = seg.start + (seg.downloaded + n)
    omega

theorem work_advances {d d' : Disk} {w w' : Worker} {stop : Bool} {n : Nat}
    (hw : WorkerOk d w) (h : w.work d stop n = some (d', w')) : Advances d d' w w' := by
  obtain ⟨seg, phase⟩ := w
  cases phase with
  | loop =>
    simp only [Worker.work] at h
    split at h
    · cases h
      exact .phase trivial
    · cases h
      exact .phase rfl
  | copy fd position offset body =>
    obtain rfl : offset = some position := hw.2.1
    simp only [Worker.work] at h
    split at h
    · cases h
      exact .phase trivial
    · rename_i hgo
      split at h
      · rename_i hn
        cases h
        simp only [Bool.or_eq_true, decide_eq_true_eq, not_or] at hgo
        exact write_advances hw (by omega) hn.2.1 hn.2.2
      · cases h
  | get | ended => cases h

/-- A reply moves a worker on, unless the part is gone, and then the job is cancelled. -/
theorem reply_advances {d d' : Disk} {w w' : Worker} {j : Job} {r : Reply}
    (ho : ∀ fd, d.part = some fd → fd < d.files.length) (hw : WorkerOk d w)
    (hc : CarefulReply d j w r) (h : w.reply d r = some (d', w')) :
    j.cancelled = true ∨ Advances d d' w w' := by
  obtain ⟨seg, phase⟩ := w
  cases phase with
  | get from_ =>
    simp only [Worker.reply] at h
    split at h
    · cases h
      exact .inr (.phase trivial)
    · rename_i h416
      split at h
      · rename_i hs
        obtain ⟨hb, hgone⟩ := hc h416 hs
        cases hp : d.part with
        | none => exact .inl (hgone hp)
        | some fd =>
          rw [openPart_some hp] at h
          cases h
          refine .inr (.phase ⟨hw, hb, ho fd hp, fun p hp' => ?_⟩)
          exact Option.some.inj (hp'.symm.trans hp)
      · cases h
        exact .inr (.phase trivial)
  | loop | copy | ended => cases h

/-- A worker opens the part, or makes it anew. -/
theorem reply_opened {d d' : Disk} {w w' : Worker} {r : Reply}
    (ho : ∀ fd, d.part = some fd → fd < d.files.length) (h : w.reply d r = some (d', w')) :
    ∀ fd, d'.part = some fd → fd < d'.files.length := by
  obtain ⟨seg, phase⟩ := w
  cases phase with
  | get from_ =>
    simp only [Worker.reply] at h
    split at h
    · cases h
      exact ho
    · split at h
      · cases h
        intro fd hp
        obtain ⟨hp', hlt⟩ := openPart_lt ho
        rw [Option.some.inj (hp.symm.trans hp')]
        exact hlt
      · cases h
        exact ho
  | loop | copy | ended => cases h

theorem work_opened {d d' : Disk} {w w' : Worker} {stop : Bool} {n : Nat}
    (ho : ∀ fd, d.part = some fd → fd < d.files.length)
    (h : w.work d stop n = some (d', w')) : ∀ fd, d'.part = some fd → fd < d'.files.length := by
  obtain ⟨seg, phase⟩ := w
  cases phase with
  | loop =>
    simp only [Worker.work] at h
    split at h <;> cases h <;> exact ho
  | copy fd position offset body =>
    simp only [Worker.work] at h
    split at h
    · cases h
      exact ho
    · split at h
      · cases h
        simpa [Disk.update] using ho
      · cases h
  | get | ended => cases h

theorem throw_advances {d d' : Disk} {w w' : Worker} (h : w.throw d = some (d', w')) :
    Advances d d' w w' := by
  unfold Worker.throw at h
  split at h
  · cases h
  · cases h
    exact .phase trivial

theorem WorkerOk.congr {d d' : Disk} {w : Worker} (hw : WorkerOk d w) (hp : d'.part = d.part)
    (hf : d'.files.length = d.files.length) : WorkerOk d' w := by
  obtain ⟨seg, phase⟩ := w
  cases phase with
  | copy =>
    obtain ⟨h1, h2, h3, h4⟩ := hw
    exact ⟨h1, h2, hf ▸ h3, hp ▸ h4⟩
  | _ => exact hw

theorem Covers.congr {segs segs' : List Segment} {total : Int} (h : Covers segs total)
    (hin : ∀ seg' ∈ segs', ∃ seg ∈ segs, seg'.last = seg.last)
    (hev : ∀ seg ∈ segs, ∃ seg' ∈ segs', seg'.start = seg.start ∧ seg'.last = seg.last) :
    Covers segs' total := by
  refine ⟨fun seg' hs => ?_, fun o ho => ?_⟩
  · obtain ⟨seg, hm, he⟩ := hin seg' hs
    rw [he]
    exact h.inside seg hm
  · obtain ⟨seg, hm, hl, hr⟩ := h.every o ho
    obtain ⟨seg', hm', hs, he⟩ := hev seg hm
    exact ⟨seg', hm', hs ▸ hl, he ▸ hr⟩

/-- Setting one worker moves one segment. -/
theorem mem_segments {ws : List Worker} {k : Nat} {w' : Worker} {seg : Segment}
    (h : seg ∈ (ws.set k w').map (·.segment)) : seg = w'.segment ∨ seg ∈ ws.map (·.segment) := by
  obtain ⟨u, hu, rfl⟩ := List.mem_map.1 h
  rcases List.mem_or_eq_of_mem_set hu with hu | rfl
  · exact .inr (List.mem_map_of_mem hu)
  · exact .inl rfl

theorem set_covers {ws : List Worker} {k : Nat} {w w' : Worker} {total : Int}
    (hk : ws[k]? = some w) (hs : w'.segment.start = w.segment.start ∧ w'.segment.last = w.segment.last)
    (h : Covers (ws.map (·.segment)) total) : Covers ((ws.set k w').map (·.segment)) total := by
  have hw : w.segment ∈ ws.map (·.segment) := List.mem_map_of_mem (List.mem_of_getElem? hk)
  have hlt : k < ws.length := (List.getElem?_eq_some_iff.1 hk).1
  refine h.congr (fun seg' hm => ?_) fun seg hm => ?_
  · rcases mem_segments hm with rfl | hm
    · exact ⟨_, hw, hs.2⟩
    · exact ⟨seg', hm, rfl⟩
  · obtain ⟨u, hu, rfl⟩ := List.mem_map.1 hm
    obtain ⟨m, hm⟩ := List.getElem?_of_mem hu
    by_cases hkm : k = m
    · subst hkm
      obtain rfl : w = u := Option.some.inj (hk.symm.trans hm)
      refine ⟨w'.segment, List.mem_map_of_mem (List.mem_of_getElem? (i := k) ?_), hs⟩
      rw [List.getElem?_set_self hlt]
    · refine ⟨u.segment, List.mem_map_of_mem (List.mem_of_getElem? (i := m) ?_), rfl, rfl⟩
      rw [List.getElem?_set_ne hkm]
      exact hm

/-- **One step of one worker.** -/
theorem Sound.advance {d d' : Disk} {j : Job} {k : Nat} {w w' : Worker} (h : Sound d j)
    (hk : j.workers[k]? = some w) (ha : Advances d d' w w') :
    Sound d' { j with workers := j.workers.set k w' } := by
  have hm : w ∈ j.workers := List.mem_of_getElem? hk
  have hseg : w.segment ∈ j.workers.map (·.segment) := List.mem_map_of_mem hm
  refine ⟨?_, fun ht => set_covers hk ha.segment (h.covers ht), fun ht fd hp => ?_,
    fun fd hp seg hs => ?_, fun u hu => ?_⟩
  · simpa using h.workers
  · rw [ha.part] at hp
    exact ha.length fd _ ((h.covers ht).inside _ hseg) (h.length ht fd hp)
  · rw [ha.part] at hp
    rcases mem_segments hs with rfl | hs
    · refine ha.counted fd hp (fun s hs => ?_) _ List.mem_cons_self
      rw [List.mem_singleton.1 hs]
      exact h.kept fd hp _ hseg
    · exact fun o hl hr => ha.right fd o (h.kept fd hp seg hs o hl hr)
  · rcases List.mem_or_eq_of_mem_set hu with hu | rfl
    · exact (h.each u hu).congr ha.part ha.files
    · exact ha.ok

/-! ## The part file goes away -/

theorem kept_delete {segs : List Segment} {d : Disk} : Kept segs d.deletePart :=
  fun _ hp => by cases hp

theorem Sound.delete {d : Disk} {j : Job} (h : Sound d j) : Sound d.deletePart j where
  workers := h.workers
  covers := h.covers
  length := fun _ _ hp => by cases hp
  kept := kept_delete
  each := fun w hw => by
    have hok := h.each w hw
    obtain ⟨seg, phase⟩ := w
    cases phase with
    | copy =>
      obtain ⟨h1, h2, h3, -⟩ := hok
      exact ⟨h1, h2, h3, fun _ hp => by cases hp⟩
    | _ => exact hok

theorem JobOk.delete {d : Disk} {j : Job} (h : JobOk d j) : JobOk d.deletePart j := by
  obtain ⟨item, phase, cancelled, paused, workers⟩ := j
  cases phase with
  | probe => exact ⟨h.1, kept_delete⟩
  | plan => exact ⟨h.1, h.2.covers, kept_delete⟩
  | create => exact ⟨h.1, h.2.1, kept_delete, h.2.2.2⟩
  | join => exact h.imp_right Sound.delete
  | checkPaused | measure | move => exact ⟨h.1, h.2.delete⟩
  | ended => exact h

theorem Inv.delete {s : Sys} (h : Inv s) : Inv { s with disk := s.disk.deletePart } where
  opened := fun _ hp => by cases hp
  single := h.single
  idle := fun ho => ⟨(h.idle ho).covers, kept_delete⟩
  past := h.past
  job := fun j hj => (h.job j hj).delete
  completed := h.completed

/-! ## Steps of a job -/

theorem onJob_some {s s' : Sys} {n : Nat} {f : Job → Option (Sys × Job)}
    (h : s.onJob n f = some s') : ∃ j s1 j', s.jobs[n]? = some j ∧ f j = some (s1, j') ∧
      s' = { s1 with jobs := s.jobs.set n j' } := by
  unfold Sys.onJob at h
  split at h
  · cases h
  · rename_i j hj
    obtain ⟨⟨s1, j'⟩, hf, rfl⟩ := Option.map_eq_some_iff.1 h
    exact ⟨j, s1, j', hj, hf, rfl⟩

/-- Another job has ended, or it is the one that moves. -/
theorem Inv.other {s : Sys} (h : Inv s) {n m : Nat} {j u : Job} (hj : s.jobs[n]? = some j)
    (hlive : j.phase ≠ .ended) (hu : s.jobs[m]? = some u) (hne : n ≠ m) : u.phase = .ended := by
  by_contra hul
  exact hne (h.single n m j u hj hu hlive hul)

theorem JobOk.of_ended {d d' : Disk} {j : Job} (h : JobOk d j) (he : j.phase = .ended) :
    JobOk d' j := by
  unfold JobOk at h ⊢
  rw [he] at h ⊢
  exact h

theorem jobOk_join {d : Disk} {j : Job} (hp : j.phase = .join) :
    JobOk d j ↔ j.cancelled = true ∨ Sound d j := by
  unfold JobOk
  rw [hp]

/-- A step of the one live job. -/
theorem Inv.onJob {s s1 : Sys} {n : Nat} {j j' : Job} (h : Inv s) (hj : s.jobs[n]? = some j)
    (hlive : j.phase ≠ .ended)
    (ho : ∀ fd, s1.disk.part = some fd → fd < s1.disk.files.length) (hjob : JobOk s1.disk j')
    (hidle : s1.stored.open → Resumable s1.stored s1.disk)
    (hpast : j'.phase.past = true → s1.stored.open → s1.stored.segments = [])
    (hc : s1.stored.state = .completed →
      ∃ f, s1.target = some f ∧ Whole f s1.stored.totalBytes) :
    Inv { s1 with jobs := s.jobs.set n j' } := by
  have hlt : n < s.jobs.length := (List.getElem?_eq_some_iff.1 hj).1
  have hmem : ∀ u ∈ s.jobs.set n j', u = j' ∨ (u ∈ s.jobs ∧ u.phase = .ended) := by
    intro u hu
    obtain ⟨m, hm⟩ := List.getElem?_of_mem hu
    by_cases hnm : n = m
    · subst hnm
      rw [List.getElem?_set_self hlt] at hm
      exact .inl (Option.some.inj hm).symm
    · rw [List.getElem?_set_ne hnm] at hm
      exact .inr ⟨List.mem_of_getElem? hm, h.other hj hlive hm hnm⟩
  refine ⟨ho, fun a b ja jb ha hb hla hlb => ?_, hidle, fun u hu hp => ?_, fun u hu => ?_, hc⟩
  · have hfix : ∀ {c : Nat} {u : Job}, (s.jobs.set n j')[c]? = some u → u.phase ≠ .ended → n = c := by
      intro c u hu hul
      by_contra hne
      rw [List.getElem?_set_ne hne] at hu
      exact hul (h.other hj hlive hu hne)
    exact (hfix ha hla).symm.trans (hfix hb hlb)
  · rcases hmem u hu with rfl | ⟨-, he⟩
    · exact hpast hp
    · rw [he] at hp
      cases hp
  · rcases hmem u hu with rfl | ⟨hm, he⟩
    · exact hjob
    · exact (h.job u hm).of_ended he

/-- A job ends without completing. -/
theorem Inv.finish {s : Sys} {n : Nat} {j : Job} {state : DownloadState} (h : Inv s)
    (hj : s.jobs[n]? = some j) (hlive : j.phase ≠ .ended) (hq : j.quiet)
    (hc : state ≠ .completed)
    (hr : state = .paused ∨ state = .queued → Resumable j.current s.disk) :
    Inv { (j.finish s state).1 with jobs := s.jobs.set n (j.finish s state).2 } := by
  refine h.onJob hj hlive h.opened hq (fun ho => ⟨(hr ho).covers, (hr ho).kept⟩)
    (fun hp => by cases hp) fun hs => absurd hs hc

/-- A flag of a job is set. -/
theorem Inv.flag {s : Sys} {n : Nat} {j j' : Job} (h : Inv s) (hj : s.jobs[n]? = some j)
    (hp : j'.phase = j.phase) (hok : JobOk s.disk j → JobOk s.disk j') :
    Inv { s with jobs := s.jobs.set n j' } := by
  have hm : j ∈ s.jobs := List.mem_of_getElem? hj
  have hlt : n < s.jobs.length := (List.getElem?_eq_some_iff.1 hj).1
  have hback : ∀ {c : Nat} {u : Job}, (s.jobs.set n j')[c]? = some u →
      ∃ v, s.jobs[c]? = some v ∧ u.phase = v.phase ∧ (JobOk s.disk v → JobOk s.disk u) := by
    intro c u hu
    by_cases hnc : n = c
    · subst hnc
      rw [List.getElem?_set_self hlt] at hu
      cases hu
      exact ⟨j, hj, hp, hok⟩
    · rw [List.getElem?_set_ne hnc] at hu
      exact ⟨u, hu, rfl, id⟩
  refine ⟨h.opened, fun a b ja jb ha hb hla hlb => ?_, h.idle, fun u hu hpast => ?_, fun u hu => ?_,
    h.completed⟩
  · obtain ⟨va, hva, hpa, -⟩ := hback ha
    obtain ⟨vb, hvb, hpb, -⟩ := hback hb
    exact h.single a b va vb hva hvb (hpa ▸ hla) (hpb ▸ hlb)
  · obtain ⟨c, hc⟩ := List.getElem?_of_mem hu
    obtain ⟨v, hv, hpv, -⟩ := hback hc
    exact h.past v (List.mem_of_getElem? hv) (hpv ▸ hpast)
  · obtain ⟨c, hc⟩ := List.getElem?_of_mem hu
    obtain ⟨v, hv, -, hokv⟩ := hback hc
    exact hokv (h.job v (List.mem_of_getElem? hv))

/-- **A step of a worker.** -/
theorem Inv.worker {s s1 : Sys} {n k : Nat} {j j' : Job} {f : Worker → Option (Disk × Worker)}
    (h : Inv s) (hj : s.jobs[n]? = some j) (hs : j.worker s k f = some (s1, j'))
    (hend : ∀ w, w.phase = .ended → f w = none)
    (ho : ∀ w d' w', f w = some (d', w') → ∀ fd, d'.part = some fd → fd < d'.files.length)
    (ha : ∀ w d' w', j.workers[k]? = some w → WorkerOk s.disk w → f w = some (d', w') →
      j.cancelled = true ∨ Advances s.disk d' w w') :
    Inv { s1 with jobs := s.jobs.set n j' } := by
  unfold Job.worker at hs
  split at hs
  · cases hs
  rename_i w hw
  obtain ⟨⟨d', w'⟩, hf, he⟩ := Option.map_eq_some_iff.1 hs
  cases he
  have hm : w ∈ j.workers := List.mem_of_getElem? hw
  have hrun : w.phase ≠ .ended := fun he => by
    rw [hend w he] at hf
    cases hf
  have hok := h.job j (List.mem_of_getElem? hj)
  have hphase : j.phase = .join := by
    unfold JobOk at hok
    split at hok
    · rw [hok.1] at hm
      cases hm
    · rw [hok.1] at hm
      cases hm
    · rw [hok.1] at hm
      cases hm
    · assumption
    · exact absurd (hok.1 w hm) hrun
    · exact absurd (hok.1 w hm) hrun
    · exact absurd (hok.1 w hm) hrun
    · exact absurd (hok w hm) hrun
  have hpast : j.phase.past = true := by rw [hphase]; rfl
  have hnil := h.past j (List.mem_of_getElem? hj) hpast
  refine h.onJob hj (by rw [hphase]; decide) (ho w d' w' hf) ?_ (fun ho => resumable_nil (hnil ho) _)
    (fun _ => hnil) h.completed
  refine (jobOk_join (by exact hphase)).2 ?_
  rcases (jobOk_join hphase).1 hok with hc | hsound
  · exact .inl hc
  · exact (ha w d' w' hw (hsound.each w hm) hf).imp_right (hsound.advance hw)

/-! ## Steps of `run` -/

theorem counted_planned {item : Item} {d : Disk} (h : Resumable item d) :
    Kept (Job.planned item).segments d := by
  intro fd hp
  simp only [Job.planned]
  split
  · exact counted_zero (fun seg hs => planSegments_downloaded hs) _
  · exact h.kept fd hp

theorem covers_planned {item : Item} {d : Disk} (h : Resumable item d)
    (ht : 0 < item.totalBytes) : Covers (Job.planned item).segments item.totalBytes := by
  simp only [Job.planned]
  split
  · exact planSegments_covers _ ht
  · rename_i hne
    exact (h.covers ht).resolve_left (by simpa using hne)

theorem planSegments_ne_nil (total : Int) (count : Nat) : planSegments total count ≠ [] := by
  by_cases ht : 0 < total
  · intro hn
    obtain ⟨seg, hs, -⟩ := (planSegments_covers count ht).every 0 ht
    rw [hn] at hs
    cases hs
  · unfold planSegments
    rw [if_pos (.inl (by omega))]
    simp

theorem planned_ne_nil (item : Item) : (Job.planned item).segments ≠ [] := by
  simp only [Job.planned]
  split
  · exact planSegments_ne_nil _ _
  · rename_i hne
    simpa using hne

/-- The part after a job has made it: of the full length, with what is counted. -/
theorem created {j : Job} {d : Disk} (ho : ∀ fd, d.part = some fd → fd < d.files.length)
    (hk : Kept j.item.segments d)
    (hc : j.recreates d = true → ∀ seg ∈ j.item.segments, seg.downloaded = 0) :
    (∀ fd, (j.createPart d).part = some fd → fd < (j.createPart d).files.length) ∧
      (0 < j.item.totalBytes → ∀ fd, (j.createPart d).part = some fd →
        (((j.createPart d).file fd).length : Int) = j.item.totalBytes) ∧
      Kept j.item.segments (j.createPart d) := by
  by_cases hr : j.recreates d = true
  · obtain ⟨hp, hlt⟩ := openPart_lt ho
    have hd : j.createPart d = d.openPart.1.update d.openPart.2
        ((d.openPart.1.file d.openPart.2).setLength j.item.totalBytes.toNat) := if_pos hr
    rw [hd]
    refine ⟨fun fd hfd => ?_, fun ht fd hfd => ?_, fun fd _ => counted_zero (hc hr) _⟩
    all_goals
      have he : d.openPart.2 = fd := Option.some.inj (hp.symm.trans hfd)
      subst he
    · simpa [Disk.update] using hlt
    · rw [file_update hlt]
      exact Int.toNat_of_nonneg (Int.le_of_lt ht)
  · have hd : j.createPart d = d := if_neg hr
    rw [hd]
    refine ⟨ho, fun ht fd hfd => ?_, hk⟩
    simpa [Job.recreates, ht, hfd, Disk.partLength] using hr

/-- The workers of a job that has just made its part. -/
theorem create_sound {j : Job} {d : Disk} (hne : j.item.segments ≠ [])
    (hcov : 0 < j.item.totalBytes → Covers j.item.segments j.item.totalBytes)
    (hlen : 0 < j.item.totalBytes → ∀ fd, d.part = some fd →
      ((d.file fd).length : Int) = j.item.totalBytes)
    (hkept : Kept j.item.segments d) :
    Sound d { j with phase := .join, workers := j.item.segments.map (⟨·, .loop⟩) } := by
  have hseg : (j.item.segments.map (⟨·, Phase.loop⟩ : Segment → Worker)).map (·.segment) =
      j.item.segments := by
    rw [List.map_map]
    exact List.map_id _
  refine ⟨by simpa using hne, fun ht => ?_, hlen, ?_, fun w hw => ?_⟩
  · rw [hseg]
    exact hcov ht
  · rw [hseg]
    exact hkept
  · obtain ⟨seg, -, rfl⟩ := List.mem_map.1 hw
    trivial

/-- What a job leaves when it is paused. -/
theorem Sound.resumable {d : Disk} {j : Job} (h : Sound d j) : Resumable j.current d := by
  have hcur : j.current = { j.item with segments := j.workers.map (·.segment) } := by
    simp [Job.current, h.workers]
  rw [hcur]
  exact ⟨fun ht => .inr (h.covers ht), h.kept⟩

/-- Every worker has filled its segment, so every byte is right. -/
theorem Sound.whole {d : Disk} {j : Job} {fd : Nat} (h : Sound d j) (hp : d.part = some fd)
    (hfull : ∀ w ∈ j.workers, w.segment.full)
    (hzero : j.item.totalBytes ≤ 0 → d.partLength = 0) :
    Whole (d.file fd) (d.file fd).length := by
  intro o ho
  by_cases ht : 0 < j.item.totalBytes
  · rw [h.length ht fd hp] at ho
    obtain ⟨seg, hs, hl, hr⟩ := (h.covers ht).every o ho
    refine h.kept fd hp seg hs o hl ?_
    obtain ⟨w, hw, rfl⟩ := List.mem_map.1 hs
    have hfw : w.segment.last < w.segment.start + w.segment.downloaded := hfull w hw
    omega
  · have hl := hzero (by omega)
    simp only [Disk.partLength, hp, Option.elim_some] at hl
    omega

theorem Inv.main {s s1 : Sys} {n : Nat} {j j' : Job} (h : Inv s) (hj : s.jobs[n]? = some j)
    (hc : CarefulMain s j) (hs : j.main s = some (s1, j')) :
    Inv { s1 with jobs := s.jobs.set n j' } := by
  have hok := h.job j (List.mem_of_getElem? hj)
  have hpast := h.past j (List.mem_of_getElem? hj)
  obtain ⟨item, phase, cancelled, paused, workers⟩ := j
  cases phase with
  | probe | ended => cases hs
  | plan =>
    cases hs
    obtain ⟨hws, hres⟩ := hok
    refine h.onJob hj (by simp) h.opened ?_ (fun ho => ?_) (fun _ ho => ?_) fun hst => ?_
    · exact ⟨hws, covers_planned hres, counted_planned hres, planned_ne_nil item⟩
    · rcases ho with ho | ho <;> cases ho
    · rcases ho with ho | ho <;> cases ho
    · cases hst
  | create =>
    cases hs
    obtain ⟨hws, hcov, hkept, hne⟩ := hok
    have hnil := hpast rfl
    obtain ⟨hopen, hlen, hkept'⟩ := created h.opened hkept hc
    exact h.onJob hj (by simp) hopen (.inr (create_sound hne hcov hlen hkept'))
      (fun ho => resumable_nil (hnil ho) _) (fun _ => hnil) h.completed
  | join =>
    simp only [Job.main] at hs
    split at hs
    · rename_i hall
      have hq : ∀ w ∈ workers, w.phase = .ended := by simpa using hall
      split at hs
      · cases hs
        exact h.finish hj (by simp) hq (by simp) (by simp)
      · rename_i hcan
        cases hs
        have hsound : Sound s.disk _ := hok.resolve_left hcan
        exact h.onJob hj (by simp) h.opened ⟨hq, hsound.workers, hsound.covers, hsound.length,
          hsound.kept, hsound.each⟩ h.idle (fun _ => hpast rfl) h.completed
    · cases hs
  | checkPaused =>
    obtain ⟨hq, hsound⟩ := hok
    simp only [Job.main] at hs
    split at hs
    · cases hs
      exact h.finish hj (by simp) hq (by simp) fun _ => hsound.resumable
    · cases hs
      exact h.onJob hj (by simp) h.opened ⟨hq, hsound.workers, hsound.covers, hsound.length,
        hsound.kept, hsound.each⟩ h.idle (fun _ => hpast rfl) h.completed
  | measure =>
    obtain ⟨hq, hsound⟩ := hok
    simp only [Job.main] at hs
    split at hs
    · cases hs
      exact h.finish hj (by simp) hq (by simp) (by simp)
    · cases hs
      exact h.onJob hj (by simp) h.opened ⟨hq, hsound.workers, hsound.covers, hsound.length,
        hsound.kept, hsound.each⟩ h.idle (fun _ => hpast rfl) h.completed
  | move =>
    obtain ⟨hq, hsound⟩ := hok
    simp only [Job.main] at hs
    split at hs
    · cases hs
      exact h.finish hj (by simp) hq (by simp) (by simp)
    · rename_i fd hp
      cases hs
      obtain ⟨hfull, hzero⟩ := hc (by simp [hp])
      refine h.onJob hj (by simp) (fun _ hd => by cases hd) hq (fun ho => ?_) (fun hd => by cases hd)
        fun _ => ⟨_, rfl, hsound.whole hp hfull hzero⟩
      rcases ho with ho | ho <;> cases ho

theorem Inv.probe {s s1 : Sys} {n : Nat} {j j' : Job} {hd : Option Head} (h : Inv s)
    (hj : s.jobs[n]? = some j) (hc : j.item.segments = []) (hs : j.probe s hd = some (s1, j')) :
    Inv { s1 with jobs := s.jobs.set n j' } := by
  have hok := h.job j (List.mem_of_getElem? hj)
  obtain ⟨item, phase, cancelled, paused, workers⟩ := j
  unfold Job.probe at hs
  split at hs
  · rename_i hp
    obtain rfl : phase = .probe := hp
    obtain ⟨hws, -⟩ := hok
    have hq : ∀ w ∈ workers, w.phase = .ended := by
      have hw : workers = [] := hws
      simp [hw]
    split at hs
    · cases hs
      exact h.finish hj (by simp) hq (by simp) (by simp)
    · split at hs
      · cases hs
        exact h.onJob hj (by simp) h.opened ⟨hws, resumable_nil (by exact hc) _⟩ h.idle
          (fun hp => by cases hp) h.completed
      · cases hs
        exact h.finish hj (by simp) hq (by simp) (by simp)
  · cases hs

theorem Inv.throw {s s1 : Sys} {n : Nat} {j j' : Job} (h : Inv s) (hj : s.jobs[n]? = some j)
    (hs : j.throw s = some (s1, j')) : Inv { s1 with jobs := s.jobs.set n j' } := by
  have hok := h.job j (List.mem_of_getElem? hj)
  obtain ⟨item, phase, cancelled, paused, workers⟩ := j
  unfold Job.throw at hs
  split at hs
  · rename_i hp
    cases hs
    obtain rfl | rfl | rfl : phase = .create ∨ phase = .measure ∨ phase = .move := hp
    · have hw : workers = [] := hok.1
      exact h.finish hj (by simp) (by simp [Job.quiet, hw]) (by simp) (by simp)
    · exact h.finish hj (by simp) hok.1 (by simp) (by simp)
    · exact h.finish hj (by simp) hok.1 (by simp) (by simp)
  · cases hs

/-- A job that takes the record up. -/
theorem Inv.start {s : Sys} (h : Inv s) (hc : ∀ j ∈ s.jobs, j.phase = .ended)
    (hq : s.stored.state = .queued) : Inv { s with jobs := s.jobs ++ [.new s.stored] } := by
  have hres := h.idle (.inr hq)
  have hmem : ∀ {a : Nat} {u : Job}, (s.jobs ++ [Job.new s.stored])[a]? = some u →
      u.phase ≠ .ended → a = s.jobs.length := by
    intro a u ha hu
    by_cases hlt : a < s.jobs.length
    · rw [List.getElem?_append_left hlt] at ha
      exact absurd (hc u (List.mem_of_getElem? ha)) hu
    · have := (List.getElem?_eq_some_iff.1 ha).1
      rw [List.length_append, List.length_singleton] at this
      omega
  have hnew : JobOk s.disk (Job.new s.stored) ∧ (Job.new s.stored).phase.past = false := by
    by_cases ht : s.stored.totalBytes ≤ 0
    · have hn : Job.new s.stored = ⟨s.stored, .probe, false, false, []⟩ := by simp [Job.new, ht]
      rw [hn]
      exact ⟨⟨rfl, hres.kept⟩, rfl⟩
    · have hn : Job.new s.stored = ⟨s.stored, .plan, false, false, []⟩ := by simp [Job.new, ht]
      rw [hn]
      exact ⟨⟨rfl, hres⟩, rfl⟩
  refine ⟨h.opened, fun a b ja jb ha hb hla hlb => (hmem ha hla).trans (hmem hb hlb).symm, h.idle,
    fun u hu hp => ?_, fun u hu => ?_, h.completed⟩
  · rcases List.mem_append.1 hu with hu | hu
    · exact h.past u hu hp
    · rw [List.mem_singleton.1 hu, hnew.2] at hp
      cases hp
  · rcases List.mem_append.1 hu with hu | hu
    · exact h.job u hu
    · rw [List.mem_singleton.1 hu]
      exact hnew.1

/-- The stored record changes, and is taken up from there as before or from the beginning. -/
theorem Inv.store {s : Sys} {item : Item} (h : Inv s) (hc : item.state ≠ .completed)
    (ho : item.open → Resumable item s.disk ∧ (s.stored.open → s.stored.segments = [] →
      item.segments = []) ∧ (¬s.stored.open → item.segments = [])) :
    Inv { s with stored := item } where
  opened := h.opened
  single := h.single
  idle := fun hi => (ho hi).1
  past := fun j hj hp hi => by
    by_cases hso : s.stored.open
    · exact (ho hi).2.1 hso (h.past j hj hp hso)
    · exact (ho hi).2.2 hso
  job := h.job
  completed := fun hs => absurd hs hc

theorem step_inv (s : Sys) (a : Act) (s' : Sys) (h : Inv s) (hC : Careful s a)
    (hs : step s a = some s') : Inv s' := by
  cases a with
  | resume =>
    simp only [step] at hs
    split at hs
    · rename_i hp
      cases hs
      have hres := h.idle (.inl hp)
      exact h.store (by simp) fun _ =>
        ⟨⟨hres.covers, hres.kept⟩, fun _ hn => hn, fun hn => absurd (.inl hp) hn⟩
    · cases hs
  | recover =>
    simp only [step] at hs
    split at hs
    · cases hs
      exact h.store (by simp) fun _ => ⟨resumable_nil rfl _, fun _ _ => rfl, fun _ => rfl⟩
    · cases hs
  | retry =>
    simp only [step] at hs
    split at hs
    · cases hs
      exact h.delete.store (by simp) fun _ => ⟨resumable_nil rfl _, fun _ _ => rfl, fun _ => rfl⟩
    · cases hs
  | discard =>
    cases hs
    refine h.store (by simp) fun ho => ?_
    rcases ho with ho | ho <;> cases ho
  | deletePart =>
    cases hs
    exact h.delete
  | start =>
    simp only [step] at hs
    split at hs
    · rename_i hq
      cases hs
      exact h.start hC hq
    · cases hs
  | pause n | unpause n =>
    obtain ⟨j, s1, j', hj, hf, rfl⟩ := onJob_some hs
    cases hf
    refine h.flag hj rfl fun hok => ?_
    obtain ⟨item, phase, cancelled, paused, workers⟩ := j
    cases phase with
    | join => exact hok.imp_right fun h => ⟨h.workers, h.covers, h.length, h.kept, h.each⟩
    | checkPaused | measure | move =>
      exact ⟨hok.1, hok.2.workers, hok.2.covers, hok.2.length, hok.2.kept, hok.2.each⟩
    | _ => exact hok
  | cancel n =>
    obtain ⟨j, s1, j', hj, hf, rfl⟩ := onJob_some hs
    cases hf
    refine h.flag hj rfl fun hok => ?_
    obtain ⟨item, phase, cancelled, paused, workers⟩ := j
    cases phase with
    | join => exact .inl rfl
    | checkPaused | measure | move =>
      exact ⟨hok.1, hok.2.workers, hok.2.covers, hok.2.length, hok.2.kept, hok.2.each⟩
    | _ => exact hok
  | die =>
    cases hs
    exact ⟨h.opened, fun a b ja jb ha => by simp at ha, h.idle, fun j hj => by simp at hj,
      fun j hj => by simp at hj, h.completed⟩
  | main n =>
    obtain ⟨j, s1, j', hj, hf, rfl⟩ := onJob_some hs
    exact h.main hj (hC j hj) hf
  | head n hd =>
    obtain ⟨j, s1, j', hj, hf, rfl⟩ := onJob_some hs
    exact h.probe hj (hC j hj) hf
  | throw n =>
    obtain ⟨j, s1, j', hj, hf, rfl⟩ := onJob_some hs
    exact h.throw hj hf
  | work n k bytes =>
    obtain ⟨j, s1, j', hj, hf, rfl⟩ := onJob_some hs
    exact h.worker hj hf (fun w he => by simp [Worker.work, he])
      (fun w d' w' hw => work_opened h.opened hw)
      fun w d' w' _ hok hw => .inr (work_advances hok hw)
  | reply n k r =>
    obtain ⟨j, s1, j', hj, hf, rfl⟩ := onJob_some hs
    exact h.worker hj hf (fun w he => by simp [Worker.reply, he])
      (fun w d' w' hw => reply_opened h.opened hw)
      fun w d' w' hk hok hw => reply_advances h.opened hok (hC j hj w hk) hw
  | throwWorker n k =>
    obtain ⟨j, s1, j', hj, hf, rfl⟩ := onJob_some hs
    refine h.worker hj hf (fun w he => by simp [Worker.throw, he]) (fun w d' w' hw fd hp => ?_)
      fun w d' w' _ _ hw => .inr (throw_advances hw)
    have ha := throw_advances hw
    rw [ha.part] at hp
    rw [ha.files]
    exact h.opened fd hp

theorem fresh_inv (totalBytes : Int) (acceptRanges : Bool) (part : Option PartFile) :
    Inv (.fresh totalBytes acceptRanges part) where
  opened := fun fd hp => by
    cases part with
    | none => cases hp
    | some f =>
      cases hp
      exact Nat.zero_lt_one
  single := fun a b ja jb ha => by simp [Sys.fresh] at ha
  idle := fun _ => resumable_nil rfl _
  past := fun j hj => by simp [Sys.fresh] at hj
  job := fun j hj => by simp [Sys.fresh] at hj
  completed := fun hs => by cases hs

/-- **Completed means downloaded** in every run that meets the condition: for every
length, whatever lay on the disk before, whatever the server replies. -/
theorem completed_whole {totalBytes : Int} {acceptRanges : Bool} {part : Option PartFile}
    {as : List Act} {s : Sys} (hC : Meets step Careful (.fresh totalBytes acceptRanges part) as)
    (hr : run step (.fresh totalBytes acceptRanges part) as = some s)
    (hs : s.stored.state = .completed) :
    ∃ f, s.target = some f ∧ ∀ o : Nat, (o : Int) < s.stored.totalBytes → Right f o :=
  (run_inv step_inv (fresh_inv totalBytes acceptRanges part) hC hr).completed hs

/-- A file of three bytes, paused after one and resumed; the part was deleted before. -/
def pausedOnce : List Act :=
  [.start, .head 0 (some ⟨200, true, 3⟩), .main 0, .main 0, .work 0 0 0,
    .reply 0 0 ⟨206, some 0, [65, 66, 67]⟩, .work 0 0 1, .pause 0, .work 0 0 0, .work 0 0 0,
    .main 0, .main 0, .resume, .start, .main 1, .main 1, .work 1 0 0,
    .reply 1 0 ⟨206, some 1, [66, 67]⟩, .work 1 0 2, .work 1 0 0, .work 1 0 0, .main 1, .main 1,
    .main 1, .main 1]

theorem pausedOnce_whole : ∃ s, run step (.fresh (-1) false none) pausedOnce = some s ∧
    s.stored.totalBytes = 3 ∧
    ∃ f, s.target = some f ∧ ∀ o : Nat, (o : Int) < s.stored.totalBytes → Right f o := by
  have hr : (run step (.fresh (-1) false none) pausedOnce).isSome = true := by decide
  obtain ⟨s, hs⟩ := Option.isSome_iff_exists.1 hr
  have hv : (run step (.fresh (-1) false none) pausedOnce).map (·.stored.state) =
      some .completed := by decide
  have ht : (run step (.fresh (-1) false none) pausedOnce).map (·.stored.totalBytes) =
      some 3 := by decide
  rw [hs] at hv ht
  exact ⟨s, hs, Option.some.inj ht, completed_whole (by decide) hs (Option.some.inj hv)⟩

/-- The server answers the one request of the one segment with 416. -/
def notSatisfiable : List Act :=
  [.start, .main 0, .main 0, .work 0 0 0, .reply 0 0 ⟨416, none, []⟩, .main 0, .main 0, .main 0,
    .main 0]

theorem notSatisfiable_completed : ∃ s,
    run step (.fresh 3 false none) notSatisfiable = some s ∧ s.stored.state = .completed ∧
      s.stored.totalBytes = 3 ∧ ¬∃ f, s.target = some f ∧
        ∀ o : Nat, (o : Int) < s.stored.totalBytes → Right f o := by
  have hr : (run step (.fresh 3 false none) notSatisfiable).isSome = true := by decide
  obtain ⟨s, hs⟩ := Option.isSome_iff_exists.1 hr
  have hv : (run step (.fresh 3 false none) notSatisfiable).map (fun s =>
      (s.stored.state, s.stored.totalBytes, s.target.map (·.cell 0))) =
      some (.completed, 3, some none) := by decide
  rw [hs] at hv
  simp only [Option.map_some, Option.some.injEq, Prod.mk.injEq] at hv
  obtain ⟨hst, htot, hcell⟩ := hv
  refine ⟨s, hs, hst, htot, fun ⟨f, hf, hw⟩ => ?_⟩
  obtain ⟨-, c, hc, -⟩ := hw 0 (by rw [htot]; decide)
  rw [hf] at hcell
  have hnone : f.cell 0 = none := Option.some.inj hcell
  rw [hnone] at hc
  cases hc

end Ghajar.Download
