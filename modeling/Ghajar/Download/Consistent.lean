import Ghajar.Download.Invariant

/-!
# The queue is consistent

`Consistent` holds in every run that meets the condition (`Careful`):
`queue_consistent`. One lemma for each step of a thread keeps `Inv`, `step_inv`
puts them together, and `Inv` gives what is promised.
-/

namespace Ghajar.Download.Queue

open Run

/-! ## The steps that change flags or the table -/

theorem active_modify {s : Sys} {k : Nat} {f : Job → Job} (hf : ∀ j, (f j).stage = j.stage)
    (h : ∃ j ∈ s.jobs, j.active = true) : ∃ j ∈ s.jobs.modify k f, j.active = true := by
  obtain ⟨j, hj, ha⟩ := h
  obtain ⟨m, hm⟩ := List.getElem?_of_mem hj
  refine ⟨if k = m then f j else j, List.mem_of_getElem? (i := m) ?_, ?_⟩
  · rw [List.getElem?_modify, hm]
    rfl
  · split
    · simpa [Job.active, hf j] using ha
    · exact ha

theorem Inv.flag {s : Sys} {id : Nat} {f : Job → Job} {pc : Pc} (h : Inv s)
    (hf : ∀ j, (f j).item = j.item ∧ (f j).stage = j.stage ∧ (f j).done = j.done)
    (hown : MainOk (Known s) (Unused s) pc) (hchild : childOf pc = none)
    (hcom : Commits s.main → Commits pc) : Inv ((onTable s id f).setPc none pc) := by
  unfold onTable
  split
  · exact h.goto hown (.inl hchild) fun hc _ => .inr (hcom hc)
  · rename_i k _
    refine h.move (h.base.flags fun j => ⟨(hf j).1, (hf j).2.1, fun hd => (hf j).2.2.trans hd⟩)
      (flags_pcs h none hf) hown (fun m st hm => ?_) (h.serve (fun hq => hq) ?_ fun hc _ => .inr (hcom hc))
    · rw [hchild] at hm
      cases hm
    · exact fun ha => .inl (active_modify (fun j => (hf j).2.1) ha)

theorem Inv.removeJob {s : Sys} {id : Nat} (h : Inv s) (hm : s.main = .removeJob id)
    (hc : Free s id) :
    Inv ({ s with table := Function.update s.table id none }.setPc none (.find (.cancel id))) := by
  refine h.move ?_ ⟨⟨rfl, rfl⟩, fun w _ pc hp => ?_, fun w _ k st hw => (h.children w k st hw).1⟩
    trivial (fun k st hk => by cases hk) (h.serve (fun hq => hq) .inl fun hcom => ?_)
  · exact ⟨h.base.ids, h.base.names, h.base.bound, h.base.kept, h.base.closed, h.base.known,
      h.base.unique, fun k j hj hi => by
        have hne : j.item.id ≠ id := hc j (List.mem_of_getElem? hj) hi
        exact (Function.update_of_ne hne _ _).trans (h.base.table k j hj hi),
      h.base.count, h.base.max⟩
  · cases w <;> exact hp
  · have hm' : s.pc none = .removeJob id := hm
    rw [hm'] at hcom
    cases hcom

theorem change_record {c : Command} {r item : Record} (h : c.change r = some item) :
    item.id = r.id ∧ item.fileName = r.fileName ∧
      ((c.after = .stop ∧ item.state = .cancelled) ∨
        (c.after = .start [] ∧ item.state = .queued ∧ closes r.state = false)) := by
  cases c with
  | resume id =>
    simp only [Command.change] at h
    split at h
    · rename_i hp
      cases h
      exact ⟨rfl, rfl, .inr ⟨rfl, rfl, by simp [closes, hp]⟩⟩
    · cases h
  | retry id =>
    simp only [Command.change] at h
    split at h
    · rename_i hp
      cases h
      exact ⟨rfl, rfl, .inr ⟨rfl, rfl, by simp [closes, hp]⟩⟩
    · cases h
  | cancel id =>
    cases h
    exact ⟨rfl, rfl, .inl ⟨rfl, rfl⟩⟩
  | pause id | enqueue name | recover => cases h

theorem Inv.findRecord {s : Sys} {c : Command} (h : Inv s) (hm : s.main = .find c) :
    Inv ((exec s none (.find c)).1.setPc none (exec s none (.find c)).2) := by
  have hno : ¬Commits (s.pc none) := by
    rw [show s.pc none = .find c from hm]
    exact id
  have hidle : Inv (s.setPc none .idle) :=
    h.goto trivial (.inl rfl) fun hc => absurd hc hno
  simp only [exec]
  split
  · exact hidle
  · rename_i r hr
    split
    · exact hidle
    · rename_i item hi
      obtain ⟨id, -, hf⟩ := Option.bind_eq_some_iff.1 hr
      obtain ⟨hid, hname, hafter⟩ := change_record hi
      have hk : Known s item := known_copy (known_mem (Keyed.get_mem hf)) hid hname
      have hw : WriteOk (Known s) (Unused s) ⟨item, some r.state, c.after⟩ := by
        refine ⟨.inl hk, ?_⟩
        rcases hafter with ⟨ha, hst⟩ | ⟨ha, hst, hcl⟩
        · simp only [ha]
          exact hst
        · simp only [ha]
          refine ⟨hst, fun st hst' => ?_, roundsOk_nil _⟩
          cases hst'
          exact hcl
      refine h.goto ?_ (.inl ?_) fun hc => absurd hc hno
      · cases c <;> exact hw
      · cases c <;> rfl

theorem Inv.enqueueRecord {s : Sys} {fileName : String} (h : Inv s)
    (hm : s.main = .enqueue fileName) :
    Inv ((exec s none (.enqueue fileName)).1.setPc none (exec s none (.enqueue fileName)).2) := by
  have hno : ¬Commits (s.pc none) := by
    rw [show s.pc none = .enqueue fileName from hm]
    exact id
  refine h.move ?_ ⟨⟨rfl, rfl⟩, fun w hw pc hp => ?_, fun w _ k st hw => (h.children w k st hw).1⟩
    ?_ (fun k st hk => by cases hk) (h.serve (fun hq => hq) .inl fun hc => absurd hc hno)
  · exact ⟨h.base.ids, h.base.names, fun r hr => Nat.lt_succ_of_lt (h.base.bound r hr), h.base.kept,
      h.base.closed, h.base.known, h.base.unique, h.base.table, h.base.count, h.base.max⟩
  · cases w with
    | none => exact absurd rfl hw
    | some k => exact hp
  · refine ⟨.inr ⟨⟨fun r hr => ⟨?_, fun he => ?_⟩, Nat.lt_succ_self _⟩, rfl, rfl⟩, rfl,
      (fun st hst => (by cases hst)), roundsOk_nil _⟩
    · exact Nat.ne_of_lt (h.base.bound r hr)
    · have hmem := List.mem_map_of_mem (f := fun r : Record => r.fileName) hr
      rw [he] at hmem
      exact resolveDuplicateName_fresh (s.store.map (·.fileName)) fileName hmem

theorem rounds_ok (s : Sys) : RoundsOk (Known s) (rounds s.store) := by
  refine ⟨fun t ht => ?_, fun t ht => ?_⟩
  · rcases List.mem_append.1 ht with ht | ht
    · obtain ⟨r, hr, rfl⟩ := List.mem_map.1 ht
      have hm := (List.mem_filter.1 (List.mem_filter.1 hr).1).1
      exact ⟨known_copy (known_mem hm) rfl rfl, rfl, rfl⟩
    · obtain ⟨r, hr, rfl⟩ := List.mem_map.1 ht
      exact ⟨known_copy (known_mem (List.mem_filter.1 hr).1) rfl rfl, rfl, rfl⟩
  · unfold rounds at ht
    by_cases hq : (s.store.filter fun r => r.state = .queued ∨ r.state = .running) = []
    · simp only [hq, List.filter_nil, List.map_nil, List.append_nil, List.getLast?_nil] at ht
      cases ht
    · rw [List.getLast?_append_of_ne_nil _ (by simpa using hq), List.getLast?_map] at ht
      obtain ⟨r, -, rfl⟩ := Option.map_eq_some_iff.1 ht
      rfl

theorem starts_of_last {K : Record → Prop} {todo : List Round} (h : RoundsOk K todo)
    (hne : todo ≠ []) : Starts todo := by
  refine ⟨todo.getLast hne, List.getLast_mem hne, h.2 _ ?_⟩
  simp [List.getLast?_eq_some_getLast hne]

theorem rounds_starts {s : Sys} (hq : ∃ r ∈ s.store, r.state = .queued) :
    Starts (rounds s.store) := by
  obtain ⟨r, hr, hst⟩ := hq
  refine starts_of_last (rounds_ok s) fun hn => ?_
  have hm : r ∈ s.store.filter fun r => r.state = .queued ∨ r.state = .running :=
    List.mem_filter.2 ⟨hr, by simp [hst]⟩
  rw [rounds, List.append_eq_nil_iff, List.map_eq_nil_iff, List.map_eq_nil_iff] at hn
  rw [hn.2] at hm
  cases hm

/-! ## The steps of `persist` -/

/-- The other threads know what they knew after a save. -/
theorem write_frame {s : Sys} {w : Write} {who : Option Nat} (h : Inv s)
    (hk : Known s w.item ∨ Unused s w.item) (hu : who = none ∨ Known s w.item) :
    Frame s (write s w s.store) who := by
  refine ⟨⟨rfl, rfl⟩, fun u hne pc hp => ?_, fun u _ k st hu => (h.children u k st hu).1⟩
  have hmono : ∀ r, Known s r → Known (write s w s.store) r := fun r hr =>
    known_write h.base.ids hk (.inl hr)
  cases u with
  | none =>
    have hkn : Known s w.item := hu.resolve_left (Ne.symm hne)
    exact MainOk.mono hmono (fun r hr => write_unused h.base.ids hkn hr) hp
  | some k => exact WorkerOk.mono hmono hp

theorem queued_write {s : Sys} {w : Write} (hw : w.item.state ≠ .queued)
    (hq : ∃ r ∈ (write s w s.store).store, r.state = .queued) :
    ∃ r ∈ s.store, r.state = .queued := by
  obtain ⟨r, hr, hst⟩ := hq
  rcases Keyed.mem_put hr with rfl | hr
  · exact absurd hst hw
  · exact ⟨r, hr, hst⟩

/-- A command saves a record in the state it read it in, so it does not reopen one. -/
theorem Inv.saveMain {s : Sys} {w : Write} {items : List Record} (h : Inv s)
    (hm : s.main = .save w items) (hc : careful s none (.save w items)) :
    Inv ((exec s none (.save w items)).1.setPc none (exec s none (.save w items)).2) := by
  obtain ⟨rfl, hc⟩ := hc
  obtain ⟨hread, hfree⟩ := hc rfl
  have hok : WriteOk (Known s) (Unused s) w := by
    have hp := h.pcs none
    rw [show s.pc none = .save w s.store from hm] at hp
    exact hp
  have hk : Known s w.item ∨ Unused s w.item := hok.1.imp_right And.left
  have hnew : Known (write s w s.store) w.item := known_write h.base.ids hk (.inr rfl)
  have hmono : ∀ r, Known s r → Known (write s w s.store) r := fun r hr =>
    known_write h.base.ids hk (.inl hr)
  have hframe : Frame s (write s w s.store) none := write_frame h hk (.inl rfl)
  -- a record that is queued again was not closed
  have hqueued : w.item.state = .queued → (∀ st, w.read = some st → closes st = false) →
      Base (write s w s.store) := fun hst hcl =>
    h.base.write hk fun hor => by
      have hne : closes w.item.state = false := by simp [hst, closes]
      rcases hor with hor | hor
      · obtain ⟨⟨r, hr, hcr⟩, -⟩ := h.base.closed _ hor
        rw [hr] at hread
        rw [hcl _ hread.symm] at hcr
        cases hcr
      · rw [hne] at hor
        cases hor
  obtain ⟨item, read, after⟩ := w
  cases after with
  | stop =>
    have hst : item.state = .cancelled := hok.2
    have hb : Base (write s ⟨item, read, .stop⟩ s.store) := h.base.write hk fun _ =>
      ⟨by simp [hst, closes], fun j hj hi he => absurd he (hfree hst j hj hi)⟩
    refine h.move hb hframe trivial (fun k st hkk => by cases hkk) (h.serve (queued_write ?_) .inl ?_)
    · simp [hst]
    · rw [show s.pc none = _ from hm]
      exact fun hcom => hcom.elim
  | start todo =>
    obtain ⟨hst, hcl, htodo⟩ := hok.2
    exact h.move (hqueued hst hcl) hframe ⟨hnew, htodo.mono hmono⟩ (fun k st hkk => by cases hkk)
      fun _ => .inr (.inl trivial)
  | loop todo =>
    obtain ⟨hst, hcl, htodo, hstarts⟩ := hok.2
    exact h.move (hqueued hst hcl) hframe (RoundsOk.mono hmono htodo) (fun k st hkk => by cases hkk)
      fun _ => .inr (.inl hstarts)
  | terminal => exact hok.2.elim

/-- A job saves what it reports; nobody has closed its record. -/
theorem Inv.saveWorker {s : Sys} {k : Nat} {w : Write} {items : List Record} (h : Inv s)
    (hw : s.workers k = .save w items) (hc : careful s (some k) (.save w items)) :
    Inv ((exec s (some k) (.save w items)).1.setPc (some k) (exec s (some k) (.save w items)).2) := by
  obtain ⟨rfl, -⟩ := hc
  have hp := h.pcs (some k)
  rw [show s.pc (some k) = .save w s.store from hw] at hp
  obtain ⟨j, hj, hrun, hdone, hid, hname, hnq, hafter⟩ : ∃ j, s.jobs[k]? = some j ∧
      j.stage = .running ∧ j.done = false ∧ ReportOk j w := by
    rcases worker_cases hp with hp | ⟨j, hj, hr | hr | hr | ⟨-, he⟩⟩
    · cases hp
    · obtain ⟨hrun, hd, w', hp | ⟨items', hp⟩, hrep⟩ := hr
      · cases hp
      · cases hp
        exact ⟨j, hj, hrun, hd, hrep⟩
    · cases hr.2.2
    · rcases hr.2 with hp | ⟨n, hp⟩ <;> cases hp
    · exact he.elim
  have hin : j.inTable = true := by simp [Job.inTable, hrun]
  have hact : j.active = true := by simp [Job.active, hrun]
  have hjm : j ∈ s.jobs := List.mem_of_getElem? hj
  have hkn : Known s w.item := known_copy (h.base.known j hjm) hid hname
  have hopen : s.closed w.item.id ≠ true := fun hcl => by
    rw [(h.base.closed _ hcl).2 j hjm hin hid.symm] at hdone
    cases hdone
  rcases hafter with ⟨hst, ha⟩ | ⟨hst, ha⟩
  · have hb : Base (write s w s.store) := h.base.write (.inl hkn) fun hor => by
      rcases hor with hor | hor
      · exact absurd hor hopen
      · simp [hst, closes] at hor
    have hown : PcOk (write s w s.store) (some k) .idle := by
      refine (worker_ok (by exact hj)).2 ?_
      obtain ⟨item, stage, c, p, r, d⟩ := j
      obtain rfl : stage = .running := hrun
      exact .inl ⟨hdone, .inl rfl⟩
    simp only [exec, ha]
    exact h.move hb (write_frame h (.inl hkn) (.inr hkn)) hown (fun m st hm => by cases hm)
      fun _ => .inl ⟨j, hjm, hact⟩
  · -- the last report marks the job as done before anybody can look
    let f : Job → Job := fun j => { j with done := true }
    have hj' : (s.jobs.modify k f)[k]? = some (f j) := by
      rw [List.getElem?_modify, hj]
      simp
    have hflag : ∀ j, (f j).item = j.item ∧ (f j).stage = j.stage ∧
        (j.done = true → (f j).done = true) := fun j => ⟨rfl, rfl, fun _ => rfl⟩
    have hb : Base (write (onJob s k f) w s.store) :=
      (h.base.flags hflag).write (.inl hkn) fun hor => by
        rcases hor with hor | hor
        · exact absurd hor hopen
        · refine ⟨hor, fun u hu hui hue => ?_⟩
          obtain ⟨m, hm⟩ := List.getElem?_of_mem hu
          have huniq := (h.base.flags hflag).unique m k u (f j) hm hj' hui hin (hue.trans hid)
          subst huniq
          rw [Option.some.inj (hm.symm.trans hj')]
    have hfr : Frame s (write s w s.store) (some k) := write_frame h (.inl hkn) (.inr hkn)
    have hframe : Frame s (write (onJob s k f) w s.store) (some k) := by
      refine ⟨⟨rfl, rfl⟩, fun u hne pc hpc => ?_, fun u hne m st hu => ?_⟩
      · have hold := hfr.other u hne pc hpc
        cases u with
        | none => exact hold
        | some m =>
          have hmk : k ≠ m := fun he => hne (by rw [he])
          have hget : (write (onJob s k f) w s.store).jobs[m]? = s.jobs[m]? := by
            simp [write, onJob, hmk]
          exact (worker_ok hget).2 hold
      · obtain ⟨⟨v, hv, hvs⟩, -⟩ := h.children u m st hu
        refine ⟨if k = m then f v else v, ?_, ?_⟩
        · simp [write, onJob, List.getElem?_modify, hv]
        · split
          · exact hvs
          · exact hvs
    have hown : PcOk (write (onJob s k f) w s.store) (some k) .remove := by
      refine (worker_ok (by exact hj')).2 ?_
      obtain ⟨item, stage, c, p, r, d⟩ := j
      obtain rfl : stage = .running := hrun
      exact .inr ⟨rfl, rfl⟩
    simp only [exec, ha]
    exact h.move hb hframe hown (fun m st hm => by cases hm)
      fun _ => .inl ⟨f j, List.mem_of_getElem? hj', hact⟩

/-! ## The steps of `startJob` and `onTerminal` -/

/-- One job moves on to another stage. -/
theorem stage_frame {s : Sys} {who : Option Nat} {k n : Nat} {j : Job} {f : Job → Job}
    {t : Nat → Option Nat} (h : Inv s) (hj : s.jobs[k]? = some j)
    (hother : some k ≠ who → ∀ pc, WorkerOk (Known s) (some j) pc →
      WorkerOk (Known s) (some (f j)) pc)
    (hchild : ∀ w, w ≠ who → ∀ st, childOf (s.pc w) ≠ some (k, st)) :
    Frame s { s with activeCount := n, table := t, jobs := s.jobs.modify k f } who := by
  refine ⟨⟨rfl, rfl⟩, fun w hw pc hp => ?_, fun w hw c st hc => ?_⟩
  · cases w with
    | none => exact hp
    | some m =>
      by_cases hkm : k = m
      · subst hkm
        have hget : (s.jobs.modify k f)[k]? = some (f j) := by simp [hj]
        exact (worker_ok (by exact hget)).2 (hother hw pc ((worker_ok hj).1 hp))
      · have hget : (s.jobs.modify k f)[m]? = s.jobs[m]? := by simp [hkm]
        exact (worker_ok (by exact hget)).2 hp
  · obtain ⟨⟨v, hv, hvs⟩, -⟩ := h.children w c st hc
    have hkc : k ≠ c := fun he => hchild w hw st (he ▸ hc)
    exact ⟨v, by simp [hkc, hv], hvs⟩

theorem Inv.putJob {s : Sys} {who : Option Nat} {item : Record} {todo : List Round} (h : Inv s)
    (hp : s.pc who = .put item todo) (hc : careful s who (.put item todo)) :
    Inv ((enter s item).setPc who (.readCount s.jobs.length todo)) := by
  obtain ⟨hq, hfree⟩ := hc
  have hok := h.pcs who
  rw [hp] at hok
  obtain ⟨hstarter, hk, hrounds, hnil⟩ := starter_ok hok rfl
  obtain ⟨r, hr, hrq⟩ := Option.map_eq_some_iff.1 hq
  have hnot : s.closed item.id ≠ true := fun hcl => by
    obtain ⟨⟨r', hr', hcr⟩, -⟩ := h.base.closed _ hcl
    rw [Option.some.inj (hr'.symm.trans hr), hrq] at hcr
    cases hcr
  let new : Job := ⟨item, .placed, false, false, false, false⟩
  have hget : ∀ {m : Nat} {u : Job}, (s.jobs ++ [new])[m]? = some u →
      (s.jobs[m]? = some u ∧ m < s.jobs.length) ∨ (m = s.jobs.length ∧ u = new) := by
    intro m u hu
    by_cases hlt : m < s.jobs.length
    · rw [List.getElem?_append_left hlt] at hu
      exact .inl ⟨hu, hlt⟩
    · rw [List.getElem?_append_right (by omega)] at hu
      have hone := (List.getElem?_eq_some_iff.1 hu).1
      rw [List.length_singleton] at hone
      exact .inr ⟨by omega, List.mem_singleton.1 (List.mem_of_getElem? hu)⟩
  have hold : ∀ {m : Nat} {u : Job}, s.jobs[m]? = some u → (s.jobs ++ [new])[m]? = some u := by
    intro m u hu
    rw [List.getElem?_append_left (List.getElem?_eq_some_iff.1 hu).1]
    exact hu
  have hb : Base (enter s item) := by
    refine ⟨h.base.ids, h.base.names, h.base.bound, h.base.kept, fun id hid => ?_, fun u hu => ?_,
      fun a b ja jb ha hb hia hib he => ?_, fun m u hu hi => ?_, ?_, h.base.max⟩
    · obtain ⟨hf, hd⟩ := h.base.closed id hid
      refine ⟨hf, fun u hu hi he => ?_⟩
      rcases List.mem_append.1 hu with hu | hu
      · exact hd u hu hi he
      · rw [List.mem_singleton.1 hu] at he
        exact absurd (he ▸ hid) hnot
    · rcases List.mem_append.1 hu with hu | hu
      · exact h.base.known u hu
      · rw [List.mem_singleton.1 hu]
        exact hk
    · rcases hget ha with ⟨ha, -⟩ | ⟨rfl, rfl⟩
      · rcases hget hb with ⟨hb, -⟩ | ⟨rfl, rfl⟩
        · exact h.base.unique a b ja jb ha hb hia hib he
        · exact absurd he (hfree ja (List.mem_of_getElem? ha) hia)
      · rcases hget hb with ⟨hb, -⟩ | ⟨rfl, rfl⟩
        · exact absurd he.symm (hfree jb (List.mem_of_getElem? hb) hib)
        · rfl
    · rcases hget hu with ⟨hu, -⟩ | ⟨rfl, rfl⟩
      · have hne : u.item.id ≠ item.id := hfree u (List.mem_of_getElem? hu) hi
        exact (Function.update_of_ne hne _ _).trans (h.base.table m u hu hi)
      · exact Function.update_self ..
    · show s.activeCount = (s.jobs ++ [new]).countP Job.active
      rw [List.countP_append, h.base.count]
      rfl
  refine h.move hb ⟨⟨rfl, rfl⟩, fun w hw pc hpc => ?_, fun w _ m st hm => ?_⟩ ?_ (fun m st hm => ?_)
    fun _ => .inr (.inl trivial)
  · cases w with
    | none => exact hpc
    | some m =>
      by_cases hlt : m < s.jobs.length
      · have hg : (s.jobs ++ [new])[m]? = s.jobs[m]? := List.getElem?_append_left hlt
        exact (worker_ok (by exact hg)).2 hpc
      · have hn : s.jobs[m]? = none := List.getElem?_eq_none (by omega)
        have hidle : pc = .idle := (worker_ok hn).1 hpc
        subst hidle
        cases hg : (enter s item).jobs[m]? with
        | none => exact (worker_ok hg).2 rfl
        | some u =>
          rcases hget hg with ⟨-, hlt'⟩ | ⟨-, rfl⟩
          · exact absurd hlt' hlt
          · exact (worker_ok hg).2 ⟨rfl, rfl⟩
  · obtain ⟨⟨v, hv, hvs⟩, -⟩ := h.children w m st hm
    exact ⟨v, hold hv, hvs⟩
  · refine ok_starter (fun m hm => ?_) ⟨hrounds, hnil⟩
    obtain ⟨v, hv, hvs⟩ := hstarter m hm
    exact ⟨v, hold hv, hvs⟩
  · cases hm
    refine ⟨⟨new, by simp [enter, new], rfl⟩, fun w _ st' hw => ?_⟩
    obtain ⟨⟨v, hv, -⟩, -⟩ := h.children w _ st' hw
    exact absurd (List.getElem?_eq_some_iff.1 hv).1 (Nat.lt_irrefl _)

/-- The job a thread is about to start. -/
theorem Inv.child {s : Sys} {who : Option Nat} {k : Nat} {st : Stage} (h : Inv s)
    (hk : childOf (s.pc who) = some (k, st)) :
    ∃ j, s.jobs[k]? = some j ∧ j.stage = st ∧
      ∀ w, w ≠ who → ∀ st', childOf (s.pc w) ≠ some (k, st') := by
  obtain ⟨⟨j, hj, hs⟩, huniq⟩ := h.children who k st hk
  exact ⟨j, hj, hs, fun w hw st' hw' => hw (huniq w st' hw')⟩

theorem starter_modify {s : Sys} {who : Option Nat} {k n : Nat} {f : Job → Job}
    {t : Nat → Option Nat} {j : Job} (h : Starter s who) (hj : s.jobs[k]? = some j)
    (hne : j.stage ≠ .ended) :
    Starter { s with activeCount := n, table := t, jobs := s.jobs.modify k f } who := by
  intro m hm
  obtain ⟨v, hv, hvs⟩ := h m hm
  have hkm : k ≠ m := fun he => by
    subst he
    rw [Option.some.inj (hj.symm.trans hv)] at hne
    exact hne hvs
  exact ⟨v, by simp [hkm, hv], hvs⟩

theorem Inv.countJob {s : Sys} {who : Option Nat} {k n : Nat} {todo : List Round} (h : Inv s)
    (hp : s.pc who = .count k n todo) (hc : careful s who (.count k n todo)) :
    Inv ((onJob { s with activeCount := n + 1 } k fun j => { j with stage := .counted }).setPc who
      (.launch k todo)) := by
  obtain ⟨rfl, hmax⟩ := hc
  have hok := h.pcs who
  rw [hp] at hok
  obtain ⟨hstarter, hrounds⟩ := starter_ok hok rfl
  have hchild : childOf (s.pc who) = some (k, .placed) := by rw [hp]; rfl
  obtain ⟨j, hj, hs, hno⟩ := h.child hchild
  have hget : (s.jobs.modify k fun j => { j with stage := .counted })[k]? =
      some { j with stage := .counted } := by simp [hj]
  refine h.move (h.base.modify hj rfl (fun _ => by simp [Job.inTable, hs]) (fun hd => hd) ?_ hmax
    fun m u hu hi _ => h.base.table m u hu hi) (stage_frame h hj (fun _ pc hw => ?_) hno)
    (ok_starter (starter_modify hstarter hj (by simp [hs])) hrounds) (fun m st hm => ?_)
    fun _ => .inl ⟨_, List.mem_of_getElem? hget, rfl⟩
  · simp [Job.active, hs]
  · obtain ⟨item, stage, c, p, r, d⟩ := j
    obtain rfl : stage = .placed := hs
    exact hw
  · cases hm
    exact ⟨⟨_, hget, rfl⟩, hno⟩

theorem Inv.launchJob {s : Sys} {who : Option Nat} {k : Nat} {todo : List Round} (h : Inv s)
    (hp : s.pc who = .launch k todo) :
    Inv ((onJob s k fun j => { j with stage := .running }).setPc who (.loop todo)) := by
  have hok := h.pcs who
  rw [hp] at hok
  obtain ⟨hstarter, hrounds⟩ := starter_ok hok rfl
  have hchild : childOf (s.pc who) = some (k, .counted) := by rw [hp]; rfl
  obtain ⟨j, hj, hs, hno⟩ := h.child hchild
  have hget : (s.jobs.modify k fun j => { j with stage := .running })[k]? =
      some { j with stage := .running } := by simp [hj]
  refine h.move (h.base.modify hj rfl (fun _ => by simp [Job.inTable, hs]) (fun hd => hd) ?_
    h.base.max fun m u hu hi _ => h.base.table m u hu hi)
    (stage_frame h hj (fun _ pc hw => ?_) hno)
    (ok_starter (starter_modify hstarter hj (by simp [hs])) hrounds) (fun m st hm => by cases hm)
    fun _ => .inl ⟨_, List.mem_of_getElem? hget, rfl⟩
  · simp [Job.active, hs]
  · obtain ⟨item, stage, c, p, r, d⟩ := j
    obtain rfl : stage = .counted := hs
    obtain ⟨rfl, hd⟩ := hw
    exact .inl ⟨hd, .inl rfl⟩

/-- Nobody is about to start a job that runs or has run. -/
theorem Inv.noChild {s : Sys} {k : Nat} {j : Job} (h : Inv s) (hj : s.jobs[k]? = some j)
    (hs : j.stage ≠ .placed ∧ j.stage ≠ .counted) (w : Option Nat) (st : Stage) :
    childOf (s.pc w) ≠ some (k, st) := by
  intro hw
  obtain ⟨⟨v, hv, hvs⟩, -⟩ := h.children w k st hw
  obtain rfl := Option.some.inj (hj.symm.trans hv)
  have hst : st = .placed ∨ st = .counted := by
    cases hp : s.pc w <;> rw [hp] at hw <;> cases hw <;> simp
  rcases hst with rfl | rfl
  · exact hs.1 hvs
  · exact hs.2 hvs

theorem Inv.removeLive {s : Sys} {k : Nat} (h : Inv s) (hp : s.workers k = .remove) :
    Inv ((exec s (some k) .remove).1.setPc (some k) (exec s (some k) .remove).2) := by
  have hok := h.pcs (some k)
  rw [show s.pc (some k) = .remove from hp] at hok
  obtain ⟨j, hj, hs⟩ : ∃ j, s.jobs[k]? = some j ∧ j.stage = .running := by
    rcases worker_cases hok with he | ⟨j, hj, hr | hr | hr | ⟨-, he⟩⟩
    · cases he
    · obtain ⟨-, -, w, he | ⟨items, he⟩, -⟩ := hr <;> cases he
    · exact ⟨j, hj, hr.1⟩
    · rcases hr.2 with he | ⟨n, he⟩ <;> cases he
    · exact he.elim
  have hin : j.inTable = true := by simp [Job.inTable, hs]
  have hown : ∀ K, WorkerOk K (some { j with stage := .closing }) .readLive := fun _ => .inl rfl
  have hget : (s.jobs.modify k fun j => { j with stage := .closing })[k]? =
      some { j with stage := .closing } := by simp [hj]
  simp only [exec, Option.getD_some, hj, Option.elim_some]
  refine h.move (h.base.modify hj rfl (fun hc => by simp [Job.inTable] at hc) (fun hd => hd) ?_
    h.base.max fun m u hu hi hm => ?_)
    (stage_frame h hj (fun hne => absurd rfl hne) fun w _ st => h.noChild hj (by simp [hs]) w st)
    ((worker_ok (by exact hget)).2 (hown _)) (fun m st hm => by cases hm)
    fun _ => .inl ⟨_, List.mem_of_getElem? hget, rfl⟩
  · simp [Job.active, hs]
  · have hne : u.item.id ≠ j.item.id := fun he => by
      have hmk := h.base.unique m k u j hu hj hi hin he
      simpa [Job.inTable] using hm hmk
    exact (Function.update_of_ne hne _ _).trans (h.base.table m u hu hi)

theorem Inv.uncountJob {s : Sys} {k n : Nat} (h : Inv s) (hp : s.workers k = .uncount n)
    (hc : careful s (some k) (.uncount n)) :
    Inv ((exec s (some k) (.uncount n)).1.setPc (some k) (exec s (some k) (.uncount n)).2) := by
  obtain rfl : n = s.activeCount := hc
  have hok := h.pcs (some k)
  rw [show s.pc (some k) = .uncount s.activeCount from hp] at hok
  obtain ⟨j, hj, hs⟩ : ∃ j, s.jobs[k]? = some j ∧ j.stage = .closing := by
    rcases worker_cases hok with he | ⟨j, hj, hr | hr | hr | ⟨-, he⟩⟩
    · cases he
    · obtain ⟨-, -, w, he | ⟨items, he⟩, -⟩ := hr <;> cases he
    · cases hr.2.2
    · exact ⟨j, hj, hr.1⟩
    · exact he.elim
  have hget : (s.jobs.modify k fun j => { j with stage := .ended })[k]? =
      some { j with stage := .ended } := by simp [hj]
  have hown : ∀ K, WorkerOk K (some { j with stage := .ended }) .next := fun _ => trivial
  have hact : j.active = true := by simp [Job.active, hs]
  have hpos : 0 < s.activeCount := by
    rw [h.base.count]
    exact List.countP_pos_iff.2 ⟨j, List.mem_of_getElem? hj, hact⟩
  refine h.move (h.base.modify hj rfl (fun hc => by simp [Job.inTable] at hc) (fun hd => hd) ?_ ?_
    fun m u hu hi _ => h.base.table m u hu hi)
    (stage_frame h hj (fun hne => absurd rfl hne) fun w _ st => h.noChild hj (by simp [hs]) w st)
    ((worker_ok (by exact hget)).2 (hown _)) (fun m st hm => by cases hm)
    fun _ => .inr (.inl trivial)
  · have hend : ({ j with stage := .ended } : Job).active = false := rfl
    simp only [hact, hend, if_true, Bool.false_eq_true, if_false]
    omega
  · exact Nat.le_trans (Nat.sub_le _ _) h.base.max

/-- A record that stands queued is found, or none does. -/
theorem Inv.next {s : Sys} {who : Option Nat} (h : Inv s) (hp : s.pc who = .next) :
    Inv ((exec s who .next).1.setPc who (exec s who .next).2) := by
  have hstarter : Starter s who := by
    have hok := h.pcs who
    rw [hp] at hok
    cases who with
    | none => exact hok.elim
    | some k =>
      rcases worker_cases hok with he | ⟨j, hj, hr | hr | hr | ⟨hs, -⟩⟩
      · cases he
      · obtain ⟨-, -, w, he | ⟨items, he⟩, -⟩ := hr <;> cases he
      · cases hr.2.2
      · rcases hr.2 with he | ⟨n, he⟩ <;> cases he
      · intro m hm
        cases hm
        exact ⟨j, hj, hs⟩
  simp only [exec]
  split
  · rename_i hn
    refine h.goto (ok_idle hstarter) (.inl rfl) fun _ hq => ?_
    obtain ⟨r, hr, hst⟩ := hq
    have := List.find?_eq_none.1 hn r hr
    simp [hst] at this
  · rename_i item hf
    have hk : Known s item := known_mem (List.mem_of_find?_eq_some hf)
    exact h.goto (ok_starter hstarter ⟨hk, roundsOk_nil _, fun _ => rfl⟩) (.inl rfl)
      fun _ _ => .inr trivial

/-- The next round of `recoverPending`. -/
theorem Inv.loopRound {s : Sys} {who : Option Nat} {r : Round} {todo : List Round} (h : Inv s)
    (hp : s.pc who = .loop (r :: todo)) :
    Inv ((exec s who (.loop (r :: todo))).1.setPc who (exec s who (.loop (r :: todo))).2) := by
  have hok := h.pcs who
  rw [hp] at hok
  obtain ⟨-, hrounds, hnil⟩ := starter_ok hok rfl
  cases who with
  | some k => cases hnil (by simp)
  | none =>
    obtain ⟨hall, hlast⟩ := hrounds
    obtain ⟨hk, hst, hcl⟩ := hall r (List.mem_cons_self ..)
    have hread : ∀ st, some r.read = some st → closes st = false := fun st hst' => by
      cases hst'
      exact hcl
    have htodo : RoundsOk (Known s) todo := by
      refine ⟨fun t ht => hall t (List.mem_cons_of_mem _ ht), fun t ht => hlast t ?_⟩
      cases todo with
      | nil => cases ht
      | cons t' todo => exact ht
    simp only [exec]
    by_cases hs : r.starts = true
    · simp only [hs, if_true]
      exact h.goto ⟨.inl hk, hst, hread, htodo⟩ (.inl rfl) fun _ _ => .inr trivial
    · simp only [hs]
      have hne : todo ≠ [] := fun he => by
        subst he
        exact hs (hlast r rfl)
      have hstarts := starts_of_last htodo hne
      exact h.goto ⟨.inl hk, hst, hread, htodo, hstarts⟩ (.inl rfl) fun _ _ => .inr hstarts

/-! ## The steps that only move a thread -/

theorem Inv.startStep {s : Sys} {who : Option Nat} (h : Inv s) (hs : (s.pc who).starting = true)
    (hc : careful s who (s.pc who)) :
    Inv ((exec s who (s.pc who)).1.setPc who (exec s who (s.pc who)).2) := by
  obtain ⟨hstarter, hok⟩ := starter_ok (h.pcs who) hs
  cases hp : s.pc who with
  | check item todo =>
    rw [hp] at hok
    obtain ⟨hk, hrounds, hnil⟩ := hok
    simp only [exec]
    split
    · rename_i hfull
      refine h.goto (ok_starter hstarter ⟨hrounds, hnil⟩) (.inl rfl) fun _ _ => .inl ?_
      have hpos : 0 < s.jobs.countP Job.active := by
        rw [← h.base.count]
        exact Nat.lt_of_lt_of_le (by decide) hfull
      exact List.countP_pos_iff.1 hpos
    · exact h.goto (ok_starter hstarter ⟨hk, hrounds, hnil⟩) (.inl rfl) fun _ _ => .inr trivial
  | put item todo =>
    rw [hp] at hc
    exact h.putJob hp hc
  | readCount k todo =>
    rw [hp] at hok
    exact h.goto (ok_starter hstarter hok) (.inr ⟨k, by rw [hp]; rfl, rfl⟩) fun _ _ => .inr trivial
  | count k n todo =>
    rw [hp] at hc
    exact h.countJob hp hc
  | launch k todo => exact h.launchJob hp
  | loop todo =>
    rw [hp] at hok
    cases todo with
    | nil =>
      refine h.goto (ok_idle hstarter) (.inl rfl) fun hcom _ => ?_
      rw [hp] at hcom
      obtain ⟨t, ht, -⟩ := hcom
      cases ht
    | cons r todo => exact h.loopRound hp
  | _ =>
    rw [hp] at hs
    cases hs

theorem Inv.load {s : Sys} {who : Option Nat} {w : Write} (h : Inv s)
    (hp : s.pc who = .load w) : Inv (s.setPc who (.save w s.store)) := by
  have hok := h.pcs who
  rw [hp] at hok
  refine h.goto ?_ (.inl rfl) fun hcom _ => .inr ?_
  · cases who with
    | none => exact hok
    | some k =>
      rcases worker_cases hok with he | ⟨j, hj, hr | hr | hr | ⟨-, he⟩⟩
      · cases he
      · obtain ⟨hs, hd, w', he | ⟨items, he⟩, hrep⟩ := hr
        · cases he
          have hown : ∀ K, WorkerOk K (some j) (.save w s.store) := fun K => by
            obtain ⟨item, stage, c, p, r, d⟩ := j
            obtain rfl : stage = .running := hs
            exact .inl ⟨hd, .inr ⟨w, .inr ⟨s.store, rfl⟩, hrep⟩⟩
          exact (worker_ok hj).2 (hown _)
        · cases he
      · cases hr.2.2
      · rcases hr.2 with he | ⟨n, he⟩ <;> cases he
      · exact he.elim
  · rw [hp] at hcom
    exact hcom

theorem Inv.readLive {s : Sys} {who : Option Nat} (h : Inv s) (hp : s.pc who = .readLive) :
    Inv (s.setPc who (.uncount s.activeCount)) := by
  have hok := h.pcs who
  rw [hp] at hok
  refine h.goto ?_ (.inl rfl) fun hcom _ => ?_
  · cases who with
    | none => exact hok.elim
    | some k =>
      rcases worker_cases hok with he | ⟨j, hj, hr | hr | hr | ⟨-, he⟩⟩
      · cases he
      · obtain ⟨-, -, w, he | ⟨items, he⟩, -⟩ := hr <;> cases he
      · cases hr.2.2
      · have hown : ∀ K, WorkerOk K (some j) (.uncount s.activeCount) := fun K => by
          obtain ⟨item, stage, c, p, r, d⟩ := j
          obtain rfl : stage = .closing := hr.1
          exact .inr ⟨_, rfl⟩
        exact (worker_ok hj).2 (hown _)
      · exact he.elim
  · rw [hp] at hcom
    exact hcom.elim

/-! ## Runs -/

/-- A command finds its thread where it left it. -/
theorem Inv.mainStep {s : Sys} (h : Inv s) (hm : s.main.mainOnly = true)
    (hc : careful s none s.main) :
    Inv ((exec s none s.main).1.setPc none (exec s none s.main).2) := by
  have hok : MainOk (Known s) (Unused s) s.main := h.pcs none
  cases hp : s.main with
  | pause id =>
    refine h.flag (fun j => ⟨rfl, rfl, rfl⟩) trivial rfl fun hcom => ?_
    rw [hp] at hcom
    exact hcom
  | cancelJob id =>
    refine h.flag (fun j => ⟨rfl, rfl, rfl⟩) trivial rfl fun hcom => ?_
    rw [hp] at hcom
    exact hcom
  | removeJob id =>
    rw [hp] at hc
    exact h.removeJob hp hc
  | find c => exact h.findRecord hp
  | unpause w =>
    rw [hp] at hok
    refine h.flag (fun j => ⟨rfl, rfl, rfl⟩) hok rfl fun hcom => ?_
    rw [hp] at hcom
    exact hcom
  | enqueue fileName => exact h.enqueueRecord hp
  | pending =>
    exact h.goto (rounds_ok s) (.inl rfl) fun _ hq => .inr (rounds_starts hq)
  | _ =>
    rw [hp] at hm
    cases hm

/-- **A step of a thread keeps the invariant.** -/
theorem Inv.thread {s : Sys} {who : Option Nat} (h : Inv s) (hne : s.pc who ≠ .idle)
    (hc : careful s who (s.pc who)) :
    Inv ((exec s who (s.pc who)).1.setPc who (exec s who (s.pc who)).2) := by
  have hok := h.pcs who
  by_cases hm : (s.pc who).mainOnly = true
  · obtain rfl := mainOnly_main hok hm
    exact h.mainStep hm hc
  by_cases hs : (s.pc who).starting = true
  · exact h.startStep hs hc
  cases hp : s.pc who with
  | idle => exact absurd hp hne
  | load w => exact h.load hp
  | save w items =>
    rw [hp] at hc
    cases who with
    | none => exact h.saveMain hp hc
    | some k => exact h.saveWorker hp hc
  | readLive => exact h.readLive hp
  | next => exact h.next hp
  | remove | uncount n =>
    rw [hp] at hok hc
    cases who with
    | none => exact hok.elim
    | some k => first | exact h.removeLive hp | exact h.uncountJob hp hc
  | pause | cancelJob | removeJob | find | unpause | enqueue | pending =>
    rw [hp] at hm
    exact absurd rfl hm
  | check | put | readCount | count | launch | loop =>
    rw [hp] at hs
    exact absurd rfl hs

/-- A job reports what it may, so it has a thread to save it. -/
theorem Inv.reports {s : Sys} {k : Nat} {j : Job} {f : Job → Job} {w : Write} (h : Inv s)
    (hj : s.jobs[k]? = some j) (hidle : s.workers k = .idle) (hs : j.stage = .running)
    (hd : j.done = false)
    (hf : ∀ j, (f j).item = j.item ∧ (f j).stage = j.stage ∧ (f j).done = j.done)
    (hrep : ReportOk j w) : Inv ((onJob s k f).setPc (some k) (.load w)) := by
  have hget : (onJob s k f).jobs[k]? = some (f j) := by simp [onJob, hj]
  refine h.move (h.base.flags fun j => ⟨(hf j).1, (hf j).2.1, fun hd => (hf j).2.2.trans hd⟩)
    (flags_pcs h (some k) hf) ?_ (fun m st hm => by cases hm)
    (h.serve (fun hq => hq) (fun ha => .inl (active_modify (fun j => (hf j).2.1) ha)) fun hcom => ?_)
  · have hown : ∀ K, WorkerOk K (some (f j)) (.load w) := fun K => by
      obtain ⟨hi, hst, hdn⟩ := hf j
      unfold ReportOk at hrep
      rw [← hi] at hrep
      rw [← hst] at hs
      rw [← hdn] at hd
      generalize f j = u at *
      obtain ⟨item, stage, c, p, r, d⟩ := u
      obtain rfl : stage = .running := hs
      exact .inl ⟨hd, .inr ⟨w, .inl rfl, hrep⟩⟩
    exact (worker_ok hget).2 (hown _)
  · rw [show s.pc (some k) = .idle from hidle] at hcom
    exact hcom.elim

/-- A step of a thread moves no other thread. -/
theorem exec_workers (s : Sys) (self : Option Nat) (pc : Pc) :
    (exec s self pc).1.workers = s.workers := by
  have honTable : ∀ id f, (onTable s id f).workers = s.workers := fun id f => by
    unfold onTable
    split <;> rfl
  cases pc with
  | pause id | cancelJob id | unpause w => exact honTable _ _
  | find c =>
    simp only [exec]
    split
    · rfl
    · split <;> rfl
  | loop todo => cases todo <;> rfl
  | save w items =>
    simp only [exec]
    split <;> rfl
  | next =>
    simp only [exec]
    split <;> rfl
  | _ => rfl

theorem step_inv (s : Sys) (a : Act) (s' : Sys) (h : Inv s) (hc : Careful s a)
    (hs : step s a = some s') : Inv s' := by
  cases a with
  | command c =>
    simp only [step] at hs
    split at hs
    · rename_i hm
      cases hs
      have hidle : s.pc none = .idle := hm
      have hown : MainOk (Known s) (Unused s) c.first := by cases c <;> trivial
      have hchild : childOf c.first = none := by cases c <;> rfl
      show Inv (s.setPc none c.first)
      refine h.goto hown (.inl hchild) fun hcom _ => ?_
      rw [hidle] at hcom
      exact hcom.elim
    · cases hs
  | main =>
    simp only [step] at hs
    split at hs
    · cases hs
    · rename_i hm
      cases hs
      have hne : s.pc none ≠ .idle := hm
      exact h.thread hne hc
  | worker k =>
    simp only [step] at hs
    split at hs
    · cases hs
    · rename_i hm
      cases hs
      have hne : s.pc (some k) ≠ .idle := hm
      have hn := h.thread hne hc
      simp only [Sys.setPc, exec_workers] at hn
      exact hn
  | report k state bytes segments error =>
    simp only [step] at hs
    split at hs
    · cases hs
    · rename_i j hj
      split at hs
      · rename_i hr
        cases hs
        obtain ⟨hr, hidle⟩ := hr
        simp only [Job.reports, Bool.and_eq_true, decide_eq_true_eq, Bool.not_eq_true'] at hr
        refine h.reports hj hidle hr.1.1 hr.1.2 (fun j => ⟨rfl, rfl, rfl⟩) ⟨rfl, rfl, ?_, ?_⟩
        · rintro rfl
          exact absurd hr.2 (by simp)
        · by_cases hst : state = .running
          · exact .inl ⟨hst, by simp [hst]⟩
          · exact .inr ⟨hst, by simp [hst]⟩
      · cases hs
  | restart c =>
    cases hs
    refine ⟨?_, fun who => ?_, fun who k st hw => ?_, fun hq => .inr ⟨none, ?_⟩⟩
    · exact ⟨h.base.ids, h.base.names, h.base.bound, h.base.kept,
        fun id hid => ⟨(h.base.closed id hid).1, fun j hj => absurd hj (List.not_mem_nil)⟩,
        fun j hj => absurd hj (List.not_mem_nil), fun a b ja jb ha => by simp at ha,
        fun k j hj => by simp at hj, rfl, Nat.zero_le _⟩
    · cases who with
      | none => cases c <;> trivial
      | some k => exact rfl
    · cases who with
      | none => cases c <;> cases hw
      | some k => cases hw
    · obtain rfl := hc hq
      trivial

theorem fresh_inv : Inv .fresh := by
  refine ⟨?_, fun who => ?_, fun who k st hw => ?_, fun hq => ?_⟩
  · exact ⟨List.nodup_nil, List.nodup_nil, fun r hr => absurd hr List.not_mem_nil, fun _ => rfl,
      fun id hid => (by cases hid), fun j hj => absurd hj List.not_mem_nil,
      fun a b ja jb ha => (by cases ha), fun k j hj => (by cases hj), rfl, Nat.zero_le _⟩
  · cases who with
    | none => trivial
    | some k => exact rfl
  · cases who <;> cases hw
  · obtain ⟨r, hr, -⟩ := hq
    cases hr

/-! ## What is promised -/

theorem live_inTable {j : Job} (h : j.live = true) : j.inTable = true := by
  simp only [Job.live, Job.inTable, decide_eq_true_eq, Bool.or_eq_true] at h ⊢
  exact .inr h

theorem live_active {j : Job} (h : j.live = true) : j.active = true := by
  simp only [Job.live, Job.active, decide_eq_true_eq, Bool.or_eq_true] at h ⊢
  exact .inl (.inr h)

/-- Records of one name have one id. -/
theorem Base.sameName {s : Sys} {r r' : Record} (h : Base s) (hr : Known s r) (hr' : Known s r')
    (he : r.fileName = r'.fileName) : r.id = r'.id := by
  obtain ⟨a, ha, hae⟩ := List.mem_map.1 hr
  obtain ⟨b, hb, hbe⟩ := List.mem_map.1 hr'
  obtain ⟨hai, han⟩ := Prod.mk.inj hae
  obtain ⟨hbi, hbn⟩ := Prod.mk.inj hbe
  have hab : a = b := List.inj_on_of_nodup_map h.names ha hb (by rw [han, hbn, he])
  rw [← hai, ← hbi, hab]

theorem Inv.consistent {s : Sys} (h : Inv s) : Consistent s := by
  obtain ⟨hbase, hpcs, -, hserved⟩ := h
  have hle : s.jobs.countP Job.live ≤ s.activeCount := by
    rw [hbase.count]
    exact List.countP_mono_left fun j _ hl => live_active hl
  refine ⟨fun a b ja jb ha hb hla hlb he => ?_, fun k j hj hl => ?_, ⟨hbase.count, hbase.max⟩,
    Nat.le_trans hle hbase.max, fun hall => ?_, hbase.kept, fun id hid => ?_, fun hidle r hr hq => ?_⟩
  · refine hbase.unique a b ja jb ha hb (live_inTable hla) (live_inTable hlb) ?_
    rcases he with he | he
    · exact he
    · exact hbase.sameName (hbase.known ja (List.mem_of_getElem? ha))
        (hbase.known jb (List.mem_of_getElem? hb)) he
  · exact hbase.table k j hj (live_inTable hl)
  · refine Nat.le_antisymm ?_ hle
    rw [hbase.count]
    exact List.countP_mono_left fun j hj ha => hall j hj ha
  · obtain ⟨⟨r, hr, hc⟩, -⟩ := hbase.closed id hid
    refine ⟨r, hr, ?_⟩
    simp only [closes, decide_eq_true_eq] at hc
    rcases hc with hc | hc
    · exact .inr (.inr hc)
    · exact .inl hc
  · obtain ⟨hm, hw, hj⟩ := hidle
    rcases hserved ⟨r, hr, hq⟩ with ⟨j, hjm, ha⟩ | ⟨who, hcom⟩
    · simp [Job.active, hj j hjm] at ha
    · have hp : s.pc who = .idle := by
        cases who with
        | none => exact hm
        | some k => exact hw k
      rw [hp] at hcom
      exact hcom

/-- A download is enqueued, runs and completes. -/
def oneDownload : List Act :=
  (.command (.enqueue "a") :: List.replicate 9 .main : List Act) ++
    (.report 0 .running 0 [] "" :: List.replicate 2 (.worker 0) : List Act) ++
    (.report 0 .completed 9 [] "" :: List.replicate 6 (.worker 0) : List Act)

/-- One download completes while the other has not heard from its server. -/
def twoDownloads : List Act :=
  (.command (.enqueue "a") :: List.replicate 9 .main : List Act) ++
    (.command (.enqueue "b") :: List.replicate 9 .main : List Act) ++
    (.report 0 .running 0 [] "" :: List.replicate 2 (.worker 0) : List Act) ++
    (.report 0 .completed 9 [] "" :: List.replicate 12 (.worker 0) : List Act)

end Ghajar.Download.Queue
