import Ghajar.Lib.Counts
import Ghajar.Lib.Run

/-!
# Traffic counts at start-up

`UsageStore.kt`: five tables of traffic, in memory and in the preferences. The
thread of `init` reads them one by one, without the lock, and then merges them
into memory under it; `add` and `flush` hold the lock while they count and while
they write the tables out. `usage_kept`: nothing is lost or counted twice if no
table is written before the thread has read it, and no hour is past its
retention. The text the tables are stored as is left out.
-/

namespace Ghajar.Usage

open Run

/-- Bytes up and down. -/
abbrev Count := Int × Int

inductive Key
  | daily | hourly | byConfig | dailyCfg | hourlyCfg
  deriving DecidableEq, Repr

structure Tables where
  daily : Counts Count
  hourly : Counts Count
  byConfig : Counts Count
  dailyCfg : Counts (Counts Count)
  hourlyCfg : Counts (Counts Count)

def HOURLY_RETENTION_HOURS : Nat := 24 * 31

/-- The keys of now, and what is past the retention: the hours before the cutoff, and the
cutoff's own key. -/
structure Clock where
  dayKey : String
  hourKey : String
  old : String → Bool
  cutoff : String

def trimHourly (c : Clock) (map : Counts Count) : Counts Count := map.keep fun k => !c.old k

def trimHourlyCfg (c : Clock) (map : Counts (Counts Count)) : Counts (Counts Count) :=
  if map.entries.length ≤ HOURLY_RETENTION_HOURS then map
  else map.keep fun k => decide (c.cutoff ≤ k)

def mergeCounts (disk mem : Counts Count) : Counts Count :=
  if mem.entries.isEmpty then disk else disk.merge mem

def mergeNested (disk mem : Counts (Counts Count)) : Counts (Counts Count) :=
  if mem.entries.isEmpty then disk
  else Counts.mergeWith (fun out inner => (out.getD ∅).merge inner) disk mem

def bump (src : Counts (Counts Count)) (bucket cfg : String) (v : Count) : Counts (Counts Count) :=
  src.insert bucket (((src.lookup bucket).getD ∅).bump cfg v)

/-- What one call adds, and under which keys. -/
structure Delta where
  up : Int
  down : Int
  configKey : Option String
  dayKey : String
  hourKey : String
  deriving DecidableEq, Repr

/-- The configuration it counts for, if there is one: `isNullOrEmpty` is none. -/
def Delta.config (d : Delta) : Option String := d.configKey.filter (· ≠ "")

namespace Tables

def empty : Tables := ⟨∅, ∅, ∅, ∅, ∅⟩

/-- The table of one key, from `src` into `dst`. -/
def copy (k : Key) (src dst : Tables) : Tables :=
  match k with
  | .daily => { dst with daily := src.daily }
  | .hourly => { dst with hourly := src.hourly }
  | .byConfig => { dst with byConfig := src.byConfig }
  | .dailyCfg => { dst with dailyCfg := src.dailyCfg }
  | .hourlyCfg => { dst with hourlyCfg := src.hourlyCfg }

/-- The tables with `d` in them, before anything is dropped. -/
def record (t : Tables) (d : Delta) : Tables :=
  let v : Count := (d.up, d.down)
  let flat := { t with daily := t.daily.bump d.dayKey v, hourly := t.hourly.bump d.hourKey v }
  match d.config with
  | none => flat
  | some c => { flat with
      byConfig := t.byConfig.bump c v
      dailyCfg := bump t.dailyCfg d.dayKey c v
      hourlyCfg := bump t.hourlyCfg d.hourKey c v }

/-- What `add` assigns: the hours past the retention are dropped, those of the configurations
only where one is counted. -/
def add (t : Tables) (d : Delta) (c : Clock) : Tables :=
  let r := t.record d
  { r with
    hourly := trimHourly c r.hourly
    hourlyCfg := if d.config.isSome then trimHourlyCfg c r.hourlyCfg
      else r.hourlyCfg }

/-- The stored tables and what has been counted since, before anything is dropped. -/
def join (got mem : Tables) : Tables where
  daily := mergeCounts got.daily mem.daily
  hourly := mergeCounts got.hourly mem.hourly
  byConfig := mergeCounts got.byConfig mem.byConfig
  dailyCfg := mergeNested got.dailyCfg mem.dailyCfg
  hourlyCfg := mergeNested got.hourlyCfg mem.hourlyCfg

/-- What the thread of `init` assigns. -/
def merge (got mem : Tables) (c : Clock) : Tables :=
  let j := join got mem
  { j with hourly := trimHourly c j.hourly, hourlyCfg := trimHourlyCfg c j.hourlyCfg }

end Tables

/-! ## The threads -/

/-- The thread of `init`: the tables still to read, and those read. -/
inductive Load
  | reading (todo : List Key) (got : Tables)
  | done

/-- The preferences, the tables in memory, the thread of `init`, and the tables that the holder of
the lock is still to write. `added` is not in the source. -/
structure UState where
  disk : Tables
  mem : Tables
  load : Load
  ticks : Nat
  todo : List Key
  added : List Delta

inductive UAct
  /-- A step of the thread of `init`. -/
  | load (c : Clock)
  | add (up down : Int) (configKey : Option String) (c : Clock)
  | flush
  /-- The holder of the lock writes the next table. -/
  | persist

def keys : List Key := [.daily, .hourly, .byConfig, .dailyCfg, .hourlyCfg]

def step (s : UState) : UAct → Option UState
  | .load c =>
    match s.load with
    | .reading (k :: ks) got => some { s with load := .reading ks (Tables.copy k s.disk got) }
    | .reading [] got =>
      if s.todo = [] then some { s with mem := Tables.merge got s.mem c, load := .done } else none
    | .done => none
  | .add up down configKey c =>
    if up ≤ 0 ∧ down ≤ 0 then some s
    else if s.todo = [] then
      let d : Delta := ⟨up, down, configKey, c.dayKey, c.hourKey⟩
      let persists : Bool := s.ticks + 1 ≥ 5
      some { s with
        mem := s.mem.add d c
        ticks := if persists then 0 else s.ticks + 1
        todo := if persists then keys else []
        added := s.added ++ [d] }
    else none
  | .flush => if s.todo = [] then some { s with todo := keys, ticks := 0 } else none
  | .persist =>
    match s.todo with
    | [] => none
    | k :: ks => some { s with disk := Tables.copy k s.mem s.disk, todo := ks }

/-- `init` over a stored history: nothing is read or counted yet. -/
def UState.init (history : Tables) : UState :=
  ⟨history, .empty, .reading keys .empty, 0, [], []⟩

/-! ## What a table counts -/

inductive Cell
  | day (k : String)
  | hour (k : String)
  | config (c : String)
  | dayCfg (k c : String)
  | hourCfg (k c : String)
  deriving DecidableEq, Repr

def nested (t : Counts (Counts Count)) (k c : String) : Count := ((t.lookup k).getD ∅).at_ c

def Tables.count (t : Tables) : Cell → Count
  | .day k => t.daily.at_ k
  | .hour k => t.hourly.at_ k
  | .config c => t.byConfig.at_ c
  | .dayCfg k c => nested t.dailyCfg k c
  | .hourCfg k c => nested t.hourlyCfg k c

/-- What a delta counts for. -/
def Delta.count (d : Delta) : Cell → Count
  | .day k => if k = d.dayKey then (d.up, d.down) else 0
  | .hour k => if k = d.hourKey then (d.up, d.down) else 0
  | .config c => if d.config = some c then (d.up, d.down) else 0
  | .dayCfg k c =>
    if k = d.dayKey ∧ d.config = some c then (d.up, d.down) else 0
  | .hourCfg k c =>
    if k = d.hourKey ∧ d.config = some c then (d.up, d.down) else 0

/-- The sum of what deltas count for. -/
def total (ds : List Delta) (c : Cell) : Count := (ds.map (·.count c)).sum

/-- No hour of the tables is past its retention. -/
def Clock.Keeps (c : Clock) (t : Tables) : Prop :=
  (∀ k ∈ t.hourly.keys, c.old k = false) ∧
    (t.hourlyCfg.entries.length ≤ HOURLY_RETENTION_HOURS ∨ ∀ k ∈ t.hourlyCfg.keys, c.cutoff ≤ k)

/-- **The condition**: a table is written only when the thread of `init` has read it, and no hour
past its retention is dropped. -/
def Timely (s : UState) (a : UAct) : Prop :=
  match a with
  | .persist =>
    match s.load, s.todo with
    | .reading ks _, k :: _ => k ∉ ks
    | _, _ => True
  | .add up down configKey c => 0 < up ∨ 0 < down →
    c.Keeps (s.mem.record ⟨up, down, configKey, c.dayKey, c.hourKey⟩)
  | .load c =>
    match s.load with
    | .reading [] got => c.Keeps (Tables.join got s.mem)
    | _ => True
  | .flush => True

section Count

variable {t disk mem : Tables} {d : Delta} {c : Clock}

theorem at_mergeCounts (disk mem : Counts Count) (k : String) :
    (mergeCounts disk mem).at_ k = disk.at_ k + mem.at_ k := by
  unfold mergeCounts
  split
  · rename_i h
    have he : mem = ∅ := AList.ext (List.isEmpty_iff.1 h)
    rw [he, Counts.at_empty, add_zero]
  · exact Counts.at_merge disk mem k

theorem nested_mergeNested (disk mem : Counts (Counts Count)) (k c : String) :
    nested (mergeNested disk mem) k c = nested disk k c + nested mem k c := by
  unfold mergeNested
  split
  · rename_i h
    have he : mem = ∅ := AList.ext (List.isEmpty_iff.1 h)
    have hz : nested (∅ : Counts (Counts Count)) k c = 0 := rfl
    rw [he, hz, add_zero]
  · unfold nested
    rw [Counts.lookup_mergeWith]
    cases mem.lookup k with
    | none =>
      have hz : (∅ : Counts Count).at_ c = 0 := rfl
      rw [Option.getD_none, hz, add_zero]
    | some inner => exact Counts.at_merge _ inner c

theorem nested_bump (src : Counts (Counts Count)) (b cfg k c : String) (v : Count) :
    nested (bump src b cfg v) k c = nested src k c + if k = b ∧ cfg = c then v else 0 := by
  unfold bump nested
  by_cases hk : k = b
  · subst hk
    rw [AList.lookup_insert, Option.getD_some, Counts.at_bump]
    by_cases hc : c = cfg
    · rw [if_pos hc, if_pos ⟨rfl, hc.symm⟩]
    · rw [if_neg hc, if_neg fun h => hc h.2.symm]
  · rw [AList.lookup_insert_ne hk, if_neg fun h => hk h.1, add_zero]

/-- Joining the stored tables with those in memory adds what they count. -/
theorem count_join (cell : Cell) :
    (Tables.join disk mem).count cell = disk.count cell + mem.count cell := by
  cases cell with
  | day k => exact at_mergeCounts _ _ k
  | hour k => exact at_mergeCounts _ _ k
  | config c => exact at_mergeCounts _ _ c
  | dayCfg k c => exact nested_mergeNested _ _ k c
  | hourCfg k c => exact nested_mergeNested _ _ k c

/-- A delta is counted once in every table it is for. -/
theorem count_record (cell : Cell) : (t.record d).count cell = t.count cell + d.count cell := by
  unfold Tables.record
  cases hc : d.config with
  | none =>
    cases cell with
    | day k => exact Counts.at_bump _ _ k _
    | hour k => exact Counts.at_bump _ _ k _
    | config c => simp [Tables.count, Delta.count, hc]
    | dayCfg k c => simp [Tables.count, Delta.count, hc]
    | hourCfg k c => simp [Tables.count, Delta.count, hc]
  | some cfg =>
    cases cell with
    | day k => exact Counts.at_bump _ _ k _
    | hour k => exact Counts.at_bump _ _ k _
    | config c =>
      refine (Counts.at_bump _ _ c _).trans ?_
      simp only [Delta.count, hc, Option.some.injEq, eq_comm (a := c)]
      rfl
    | dayCfg k c =>
      refine (nested_bump _ _ _ k c _).trans ?_
      simp only [Delta.count, hc, Option.some.injEq]
      rfl
    | hourCfg k c =>
      refine (nested_bump _ _ _ k c _).trans ?_
      simp only [Delta.count, hc, Option.some.injEq]
      rfl

theorem trimHourly_eq (h : c.Keeps t) : trimHourly c t.hourly = t.hourly :=
  Counts.keep_all fun k hk => by rw [h.1 k hk]; rfl

theorem trimHourlyCfg_eq (h : c.Keeps t) : trimHourlyCfg c t.hourlyCfg = t.hourlyCfg := by
  unfold trimHourlyCfg
  split
  · rfl
  · rename_i hl
    exact Counts.keep_all fun k hk => decide_eq_true ((h.2.resolve_left hl) k hk)

theorem add_eq (h : c.Keeps (t.record d)) : t.add d c = t.record d := by
  unfold Tables.add
  simp only [trimHourly_eq h, trimHourlyCfg_eq h, ite_self]

theorem merge_eq (h : c.Keeps (Tables.join disk mem)) :
    Tables.merge disk mem c = Tables.join disk mem := by
  unfold Tables.merge
  simp only [trimHourly_eq h, trimHourlyCfg_eq h]

end Count

theorem total_append (ds : List Delta) (d : Delta) (c : Cell) :
    total (ds ++ [d]) c = total ds c + d.count c := by
  simp [total]

/-! ## Nothing lost, nothing twice -/

/-- One table of two sets is the same. -/
def Tables.Same (k : Key) (t u : Tables) : Prop :=
  match k with
  | .daily => t.daily = u.daily
  | .hourly => t.hourly = u.hourly
  | .byConfig => t.byConfig = u.byConfig
  | .dailyCfg => t.dailyCfg = u.dailyCfg
  | .hourlyCfg => t.hourlyCfg = u.hourlyCfg

theorem same_copy_self (k : Key) (src dst : Tables) : Tables.Same k (Tables.copy k src dst) src := by
  cases k <;> rfl

theorem same_copy_ne {k j : Key} (h : j ≠ k) (src dst : Tables) :
    Tables.Same j (Tables.copy k src dst) dst := by
  cases k <;> cases j <;> first | exact absurd rfl h | rfl

theorem Tables.Same.trans {k : Key} {t u v : Tables} (h : Tables.Same k t u)
    (h' : Tables.Same k u v) : Tables.Same k t v := by
  cases k <;> exact Eq.trans h h'

theorem eq_of_same {t u : Tables} (h : ∀ k, Tables.Same k t u) : t = u := by
  have h1 := h .daily
  have h2 := h .hourly
  have h3 := h .byConfig
  have h4 := h .dailyCfg
  have h5 := h .hourlyCfg
  cases t
  cases u
  simp only [Tables.Same] at h1 h2 h3 h4 h5
  subst h1 h2 h3 h4 h5
  rfl

/-- Before the load has merged, the memory counts the deltas, the tables read are the history's and
so are those on the disk that are still to be read; after it the memory counts both. -/
def Inv (history : Tables) (s : UState) : Prop :=
  match s.load with
  | .reading ks got =>
    (∀ c, s.mem.count c = total s.added c) ∧ (∀ k ∈ ks, Tables.Same k s.disk history) ∧
      ∀ k, k ∉ ks → Tables.Same k got history
  | .done => ∀ c, s.mem.count c = history.count c + total s.added c

theorem load_inv {history : Tables} {s s' : UState} {c : Clock} (h : Inv history s)
    (hc : Timely s (.load c)) (hs : step s (.load c) = some s') : Inv history s' := by
  unfold step at hs
  simp only at hs
  unfold Inv at h
  unfold Timely at hc
  simp only at hc
  cases hl : s.load with
  | done =>
    rw [hl] at hs
    cases hs
  | reading ks got =>
    rw [hl] at hs h hc
    obtain ⟨hm, hd, hg⟩ := h
    cases ks with
    | cons k ks =>
      cases hs
      refine ⟨hm, fun j hj => hd j (List.mem_cons_of_mem k hj), fun j hj => ?_⟩
      by_cases hjk : j = k
      · subst hjk
        exact (same_copy_self j s.disk got).trans (hd j List.mem_cons_self)
      · refine (same_copy_ne hjk s.disk got).trans (hg j ?_)
        rw [List.mem_cons, not_or]
        exact ⟨hjk, hj⟩
    | nil =>
      simp only at hs
      split at hs
      · cases hs
        have hgot : got = history := eq_of_same fun k => hg k (List.not_mem_nil)
        intro cell
        show (Tables.merge got s.mem c).count cell = _
        rw [merge_eq hc, count_join, hm, hgot]
      · cases hs

theorem add_inv {history : Tables} {s s' : UState} {up down : Int} {cfg : Option String}
    {c : Clock} (h : Inv history s) (hc : Timely s (.add up down cfg c))
    (hs : step s (.add up down cfg c) = some s') : Inv history s' := by
  unfold step at hs
  simp only at hs
  split at hs
  · cases hs
    exact h
  · rename_i hpos
    split at hs
    · cases hs
      have hk := hc (by omega)
      have hcount : ∀ cell, (s.mem.add ⟨up, down, cfg, c.dayKey, c.hourKey⟩ c).count cell =
          s.mem.count cell + Delta.count ⟨up, down, cfg, c.dayKey, c.hourKey⟩ cell := by
        intro cell
        rw [add_eq hk, count_record]
      unfold Inv at h ⊢
      simp only at h ⊢
      cases hl : s.load with
      | reading ks got =>
        rw [hl] at h
        refine ⟨fun cell => ?_, h.2⟩
        rw [hcount, h.1, total_append]
      | done =>
        rw [hl] at h
        intro cell
        rw [hcount, h, total_append, add_assoc]
    · cases hs

theorem persist_inv {history : Tables} {s s' : UState} (h : Inv history s)
    (hc : Timely s .persist) (hs : step s .persist = some s') : Inv history s' := by
  unfold step at hs
  simp only at hs
  unfold Timely at hc
  cases ht : s.todo with
  | nil =>
    rw [ht] at hs
    cases hs
  | cons k ks =>
    rw [ht] at hs hc
    cases hs
    unfold Inv at h ⊢
    simp only at h ⊢ hc
    cases hl : s.load with
    | done =>
      rw [hl] at h
      exact h
    | reading todo got =>
      rw [hl] at h hc
      refine ⟨h.1, fun j hj => ?_, h.2.2⟩
      have hjk : j ≠ k := fun he => hc (he ▸ hj)
      exact (same_copy_ne hjk s.mem s.disk).trans (h.2.1 j hj)

theorem step_inv {history : Tables} (s : UState) (a : UAct) (s' : UState) (h : Inv history s)
    (hc : Timely s a) (hs : step s a = some s') : Inv history s' := by
  cases a with
  | load c => exact load_inv h hc hs
  | add up down cfg c => exact add_inv h hc hs
  | persist => exact persist_inv h hc hs
  | flush =>
    unfold step at hs
    simp only at hs
    split at hs
    · cases hs
      exact h
    · cases hs

theorem init_inv (history : Tables) : Inv history (.init history) := by
  refine ⟨fun c => by cases c <;> rfl, fun k _ => by cases k <;> rfl, fun k hk => ?_⟩
  cases k <;> exact absurd (by decide) hk

/-- A flush that is not disturbed writes the memory out. -/
theorem flush_writes {s : UState} (ht : s.todo = []) :
    ∃ s', run step s (.flush :: List.replicate 5 .persist) = some s' ∧ s'.disk = s.mem ∧
      s'.mem = s.mem := by
  refine ⟨{ s with disk := s.mem, ticks := 0, todo := [] }, ?_, rfl, rfl⟩
  rcases s with ⟨disk, mem, load, ticks, todo, added⟩
  cases ht
  rfl

/-- **Every count is kept**: once the load has finished, each table counts the history and the
deltas since, each once, and a flush writes that. -/
theorem usage_kept {history : Tables} {as : List UAct} {s : UState}
    (hc : Meets step Timely (.init history) as) (hr : run step (.init history) as = some s)
    (hd : s.load = .done) :
    (∀ c, s.mem.count c = history.count c + total s.added c) ∧
      (s.todo = [] → ∃ s', run step s (.flush :: List.replicate 5 .persist) = some s' ∧
        ∀ c, s'.disk.count c = history.count c + total s.added c) := by
  have h := run_inv step_inv (init_inv history) hc hr
  unfold Inv at h
  rw [hd] at h
  refine ⟨h, fun ht => ?_⟩
  obtain ⟨s', hs', hdisk, -⟩ := flush_writes ht
  exact ⟨s', hs', fun c => by rw [hdisk, h c]⟩

instance (c : Clock) (t : Tables) : Decidable (c.Keeps t) := by
  unfold Clock.Keeps
  infer_instance

instance (s : UState) (a : UAct) : Decidable (Timely s a) := by
  unfold Timely
  split
  · split <;> infer_instance
  · infer_instance
  · split <;> infer_instance
  · infer_instance

/-- A history of one day. -/
def oneDay : Tables := { Tables.empty with daily := (∅ : Counts Count).bump "2026-01-01" (5, 7) }

def nextDay : Clock := ⟨"2026-01-02", "2026-01-02-10", fun _ => false, "2025-12-02-10"⟩

/-- Traffic is counted while the tables are read, and written out after the merge. -/
def countedMeanwhile : List UAct :=
  [.load nextDay, .load nextDay, .add 3 4 (some "a") nextDay, .load nextDay, .load nextDay,
    .load nextDay, .load nextDay, .flush, .persist]

theorem countedMeanwhile_kept : ∃ s, run step (.init oneDay) countedMeanwhile = some s ∧
    s.mem.count (.day "2026-01-02") = (3, 4) ∧
    ∀ c, s.mem.count c = oneDay.count c + total s.added c := by
  have hc : Meets step Timely (.init oneDay) countedMeanwhile := by decide
  exact ⟨_, rfl, by decide, (usage_kept hc rfl rfl).1⟩

/-- A flush before the load has read anything writes empty tables over the history. -/
def flushedEarly : List UAct :=
  .flush :: List.replicate 5 .persist ++ List.replicate 6 (.load nextDay)

/-- The history is gone, from the disk and from memory. -/
theorem flushedEarly_lost :
    ¬∀ (history : Tables) (as : List UAct) (s : UState), run step (.init history) as = some s →
      s.load = .done → ∀ c, s.mem.count c = history.count c + total s.added c := by
  intro h
  have hk := h oneDay flushedEarly _ rfl rfl (.day "2026-01-01")
  exact absurd hk (by decide)

end Ghajar.Usage
