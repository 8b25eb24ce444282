import Mathlib
import Ghajar.Lib.Calendar
import Ghajar.Lib.Counts
import Ghajar.Lib.Long
import Ghajar.Lib.Run
import Ghajar.Usage.Load

/-!
# The tables agree

The tables of `UsageStore` over whole runs: traffic is counted at times that a clock shows, and a
new process reads what the one before it wrote. The hours of the configurations are trimmed by
another rule than the hours. `usage_conserved`: the tables agree with each other as long as both
rules drop the same hours.
-/

namespace Ghajar.Usage

open Run

/-! ## Time -/

def NANOS_PER_HOUR : Nat := 3600 * 1000000000

/-- What `LocalDateTime.now()` gives, from midnight of the first of 1970 on. -/
structure LocalDateTime where
  nanos : Nat
  fourDigits : (Calendar.Date.ofDays (nanos / NANOS_PER_HOUR / 24)).year < 10000

namespace LocalDateTime

variable (now : LocalDateTime)

def hour : Nat := now.nanos / NANOS_PER_HOUR

def hourKey : String := String.ofList (Calendar.hourText now.hour)

/-- `isBefore` the cutoff; a key that is no hour is never before it. -/
def old (k : String) : Bool :=
  (Calendar.parseHour k.toList).any fun h =>
    (h + HOURLY_RETENTION_HOURS) * NANOS_PER_HOUR < now.nanos

def clock : Clock where
  dayKey := String.ofList (Calendar.Date.ofDays (now.hour / 24)).text
  hourKey := now.hourKey
  old := now.old
  cutoff := String.ofList (Calendar.hourText (now.hour - HOURLY_RETENTION_HOURS))

/-- The hour of now is never past its retention. -/
theorem old_hourKey : now.old now.hourKey = false := by
  have hread : Calendar.parseHour now.hourKey.toList = some now.hour := by
    rw [hourKey, String.toList_ofList]
    exact Calendar.parseHour_hourText now.fourDigits
  have hnow : ¬(now.hour + HOURLY_RETENTION_HOURS) * NANOS_PER_HOUR < now.nanos := by
    have hlt : now.nanos < (now.nanos / NANOS_PER_HOUR + 1) * NANOS_PER_HOUR := by
      unfold NANOS_PER_HOUR
      omega
    refine not_lt.2 (le_trans hlt.le (Nat.mul_le_mul_right _ ?_))
    unfold hour HOURLY_RETENTION_HOURS
    omega
  rw [old, hread, Option.any_some, decide_eq_false hnow]

end LocalDateTime

/-- A step of the store, or a new process. -/
inductive Act
  | load
  | add (up down : Int) (configKey : Option String)
  | flush
  | persist
  | restart

structure Event where
  now : LocalDateTime
  act : Act

/-- A new process has what is on the disk and nothing else. -/
def stepAt (s : UState) (e : Event) : Option UState :=
  match e.act with
  | .load => step s (.load e.now.clock)
  | .add up down configKey => step s (.add up down configKey e.now.clock)
  | .flush => step s .flush
  | .persist => step s .persist
  | .restart => some (.init s.disk)

/-! ## What is said of the tables -/

/-- The two numbers that an array of longs holds for a count. -/
def held (v : Count) : Count := (Long.wrap v.1, Long.wrap v.2)

def row (t : Counts (Counts Count)) (k : String) : Counts Count := (t.lookup k).getD ∅

/-- `all` says that every count was for a configuration. -/
structure Conserved (all : Prop) (t : Tables) : Prop where
  totals : ∀ k, held (t.byConfig.at_ k) = t.dailyCfg.sumOf fun inner => held (inner.at_ k)
  days : ∀ d, (row t.dailyCfg d).sumOf held ≤ held (t.daily.at_ d)
  equal : all → ∀ d, (row t.dailyCfg d).sumOf held = held (t.daily.at_ d)
  hours : ∀ h ∈ t.hourlyCfg, h ∈ t.hourly ∧ (row t.hourlyCfg h).sumOf held ≤ held (t.hourly.at_ h)

/-- No count has left the longs. -/
def InLong (t : Tables) : Prop :=
  ∀ c, (-2 ^ 63 ≤ (t.count c).1 ∧ (t.count c).1 < 2 ^ 63) ∧
    -2 ^ 63 ≤ (t.count c).2 ∧ (t.count c).2 < 2 ^ 63

/-- Both rules drop the same of the configurations' hours; `both` where the second is applied. -/
def Agree (c : Clock) (both : Bool) (t : Tables) : Prop :=
  ∀ h ∈ t.hourlyCfg, c.old h = true ↔
    both = true ∧ HOURLY_RETENTION_HOURS < t.hourlyCfg.entries.length ∧ ¬c.cutoff ≤ h

/-- The tables on the disk are those of one moment. -/
def Whole (s : UState) : Prop := s.todo = [] ∨ s.todo = keys

/-- **The condition**: a count for no configuration is not negative, the counts remain longs and the
rules agree; the stored tables are read and left to the next process whole. -/
def Fits (s : UState) (e : Event) : Prop :=
  match e.act with
  | .add up down configKey => 0 < up ∨ 0 < down →
    let d : Delta := ⟨up, down, configKey, e.now.clock.dayKey, e.now.clock.hourKey⟩
    (d.config = none → 0 ≤ up ∧ 0 ≤ down) ∧ InLong (s.mem.record d) ∧
      Agree e.now.clock d.config.isSome (s.mem.record d)
  | .load =>
    match s.load with
    | .reading [] got => InLong (Tables.join got s.mem) ∧
        Agree e.now.clock true (Tables.join got s.mem)
    | .reading _ _ => Whole s
    | .done => True
  | .persist =>
    match s.load with
    | .reading ks _ => ks = keys ∨ ks = []
    | .done => True
  | .restart => Whole s
  | .flush => True

/-- The event counts for a configuration, if it counts at all. -/
def Names (e : Event) : Prop :=
  match e.act with
  | .add up down configKey => 0 < up ∨ 0 < down → ∃ k, configKey = some k ∧ k ≠ ""
  | _ => True

/-! ## Sums of whole numbers -/

/-- What `Conserved` says, of the counts themselves. -/
structure Balanced (all : Prop) (t : Tables) : Prop where
  totals : ∀ k, t.byConfig.at_ k = t.dailyCfg.sumOf fun inner => inner.at_ k
  days : ∀ d, (row t.dailyCfg d).sumOf id ≤ t.daily.at_ d
  equal : all → ∀ d, (row t.dailyCfg d).sumOf id = t.daily.at_ d
  hours : ∀ h, (row t.hourlyCfg h).sumOf id ≤ t.hourly.at_ h
  kept : ∀ h ∈ t.hourlyCfg, h ∈ t.hourly

variable {all : Prop} {t got mem : Tables} {d : Delta} {c : Clock} {both : Bool}

theorem held_of_long {v : Count}
    (h : (-2 ^ 63 ≤ v.1 ∧ v.1 < 2 ^ 63) ∧ -2 ^ 63 ≤ v.2 ∧ v.2 < 2 ^ 63) : held v = v := by
  unfold held
  rw [Long.wrap_eq h.1.1 h.1.2, Long.wrap_eq h.2.1 h.2.2]

theorem row_of_lookup {src : Counts (Counts Count)} {k : String} {inner : Counts Count}
    (h : src.lookup k = some inner) : row src k = inner := by
  rw [row, h, Option.getD_some]

theorem at_of_lookup {src : Counts Count} {k : String} {v : Count} (h : src.lookup k = some v) :
    src.at_ k = v := by
  rw [Counts.at_, h, Option.getD_some]

/-- As long as the counts are longs, the arrays hold them. -/
theorem Balanced.conserved (h : Balanced all t) (hl : InLong t) : Conserved all t := by
  have hconfig (k : String) : held (t.byConfig.at_ k) = t.byConfig.at_ k :=
    held_of_long (hl (.config k))
  have hday (k : String) : held (t.daily.at_ k) = t.daily.at_ k := held_of_long (hl (.day k))
  have hhour (k : String) : held (t.hourly.at_ k) = t.hourly.at_ k := held_of_long (hl (.hour k))
  have hdays (k : String) : (row t.dailyCfg k).sumOf held = (row t.dailyCfg k).sumOf id :=
    Counts.sumOf_congr fun c v hv => by
      rw [← at_of_lookup hv]
      exact held_of_long (hl (.dayCfg k c))
  have hhours (k : String) : (row t.hourlyCfg k).sumOf held = (row t.hourlyCfg k).sumOf id :=
    Counts.sumOf_congr fun c v hv => by
      rw [← at_of_lookup hv]
      exact held_of_long (hl (.hourCfg k c))
  refine ⟨fun k => ?_, fun k => ?_, fun ha k => ?_, fun k hk => ⟨h.kept k hk, ?_⟩⟩
  · rw [hconfig, h.totals k]
    refine Counts.sumOf_congr fun day inner hin => ?_
    rw [← row_of_lookup hin]
    exact (held_of_long (hl (.dayCfg day k))).symm
  · rw [hdays, hday]
    exact h.days k
  · rw [hdays, hday]
    exact h.equal ha k
  · rw [hhours, hhour]
    exact h.hours k

/-! ## One step of the tables -/

theorem row_bump (src : Counts (Counts Count)) (b cfg k : String) (v : Count) :
    (row (bump src b cfg v) k).sumOf id = (row src k).sumOf id + if k = b then v else 0 := by
  unfold bump row
  by_cases hk : k = b
  · subst hk
    rw [AList.lookup_insert, Option.getD_some, Counts.sumOf_bump, if_pos rfl]
  · rw [AList.lookup_insert_ne hk, if_neg hk, add_zero]

theorem totals_bump (src : Counts (Counts Count)) (b cfg k : String) (v : Count) :
    ((bump src b cfg v).sumOf fun inner => inner.at_ k) =
      (src.sumOf fun inner => inner.at_ k) + if k = cfg then v else 0 := by
  refine Counts.sumOf_insert ?_
  rw [Counts.at_bump]
  cases src.lookup b <;> rfl

theorem mem_bump {src : Counts (Counts Count)} {b cfg k : String} {v : Count} :
    k ∈ bump src b cfg v ↔ k = b ∨ k ∈ src := AList.mem_insert _

/-- A count goes into every table it is for. -/
theorem record_balanced (h : Balanced all t) (hnone : d.config = none → 0 ≤ d.up ∧ 0 ≤ d.down)
    (hall : all → d.config.isSome = true) : Balanced all (t.record d) := by
  have hday (k : String) : (t.record d).daily.at_ k =
      t.daily.at_ k + if k = d.dayKey then (d.up, d.down) else 0 := by
    rw [← Counts.at_bump]
    unfold Tables.record
    split <;> rfl
  have hhour (k : String) : (t.record d).hourly.at_ k =
      t.hourly.at_ k + if k = d.hourKey then (d.up, d.down) else 0 := by
    rw [← Counts.at_bump]
    unfold Tables.record
    split <;> rfl
  have hkeys (k : String) : k ∈ (t.record d).hourly ↔ k = d.hourKey ∨ k ∈ t.hourly := by
    unfold Tables.record
    split <;> exact AList.mem_insert _
  cases hc : d.config with
  | none =>
    have hpos : (0 : Count) ≤ (d.up, d.down) := hnone hc
    have hadd (k key : String) : (0 : Count) ≤ if k = key then (d.up, d.down) else 0 := by
      split
      · exact hpos
      · exact le_refl 0
    have hflat : (t.record d).byConfig = t.byConfig ∧ (t.record d).dailyCfg = t.dailyCfg ∧
        (t.record d).hourlyCfg = t.hourlyCfg := by
      unfold Tables.record
      rw [hc]
      exact ⟨rfl, rfl, rfl⟩
    refine ⟨?_, fun k => ?_, fun ha => ?_, fun k => ?_, fun k hk => ?_⟩
    · rw [hflat.1, hflat.2.1]
      exact h.totals
    · rw [hflat.2.1, hday]
      exact le_add_of_le_of_nonneg (h.days k) (hadd _ _)
    · have := hall ha
      rw [hc] at this
      cases this
    · rw [hflat.2.2, hhour]
      exact le_add_of_le_of_nonneg (h.hours k) (hadd _ _)
    · rw [hflat.2.2] at hk
      exact (hkeys k).2 (.inr (h.kept k hk))
  | some cfg =>
    have hflat : (t.record d).byConfig = t.byConfig.bump cfg (d.up, d.down) ∧
        (t.record d).dailyCfg = bump t.dailyCfg d.dayKey cfg (d.up, d.down) ∧
        (t.record d).hourlyCfg = bump t.hourlyCfg d.hourKey cfg (d.up, d.down) := by
      unfold Tables.record
      rw [hc]
      exact ⟨rfl, rfl, rfl⟩
    refine ⟨fun k => ?_, fun k => ?_, fun ha k => ?_, fun k => ?_, fun k hk => ?_⟩
    · rw [hflat.1, hflat.2.1, Counts.at_bump, totals_bump, h.totals]
    · rw [hflat.2.1, hday, row_bump]
      exact add_le_add_left (h.days k) _
    · rw [hflat.2.1, hday, row_bump, h.equal ha]
    · rw [hflat.2.2, hhour, row_bump]
      exact add_le_add_left (h.hours k) _
    · rw [hflat.2.2] at hk
      exact (hkeys k).2 ((mem_bump.1 hk).imp_right (h.kept k))

theorem row_mergeNested (disk mem : Counts (Counts Count)) (k : String) :
    (row (mergeNested disk mem) k).sumOf id = (row disk k).sumOf id + (row mem k).sumOf id := by
  unfold mergeNested
  split
  · rename_i h
    have he : mem = ∅ := AList.ext (List.isEmpty_iff.1 h)
    have hz : (row (∅ : Counts (Counts Count)) k).sumOf id = 0 := rfl
    rw [he, hz, add_zero]
  · unfold row
    rw [Counts.lookup_mergeWith]
    cases mem.lookup k with
    | none => exact (add_zero _).symm
    | some inner => exact Counts.sumOf_merge

theorem totals_mergeNested (disk mem : Counts (Counts Count)) (k : String) :
    ((mergeNested disk mem).sumOf fun inner => inner.at_ k) =
      (disk.sumOf fun inner => inner.at_ k) + mem.sumOf fun inner => inner.at_ k := by
  unfold mergeNested
  split
  · rename_i h
    have he : mem = ∅ := AList.ext (List.isEmpty_iff.1 h)
    rw [he, Counts.sumOf_empty, add_zero]
  · refine Counts.sumOf_mergeWith fun cur inner => ?_
    rw [Counts.at_merge]
    cases cur <;> rfl

theorem mem_mergeNested {disk mem : Counts (Counts Count)} {k : String} :
    k ∈ mergeNested disk mem ↔ k ∈ disk ∨ k ∈ mem := by
  unfold mergeNested
  split
  · rename_i h
    have he : mem = ∅ := AList.ext (List.isEmpty_iff.1 h)
    rw [he]
    exact (or_iff_left (AList.notMem_empty k)).symm
  · exact Counts.mem_mergeWith

theorem mem_mergeCounts {disk mem : Counts Count} {k : String} :
    k ∈ mergeCounts disk mem ↔ k ∈ disk ∨ k ∈ mem := by
  unfold mergeCounts
  split
  · rename_i h
    have he : mem = ∅ := AList.ext (List.isEmpty_iff.1 h)
    rw [he]
    exact (or_iff_left (AList.notMem_empty k)).symm
  · exact Counts.mem_mergeWith

theorem join_balanced (hg : Balanced all got) (hm : Balanced all mem) :
    Balanced all (Tables.join got mem) := by
  refine ⟨fun k => ?_, fun k => ?_, fun ha k => ?_, fun k => ?_, fun k hk => ?_⟩
  · show (mergeCounts got.byConfig mem.byConfig).at_ k = _
    rw [at_mergeCounts, hg.totals, hm.totals]
    exact (totals_mergeNested _ _ k).symm
  · show _ ≤ (mergeCounts got.daily mem.daily).at_ k
    rw [at_mergeCounts]
    exact (row_mergeNested _ _ k).le.trans (add_le_add (hg.days k) (hm.days k))
  · show _ = (mergeCounts got.daily mem.daily).at_ k
    rw [at_mergeCounts, ← hg.equal ha, ← hm.equal ha]
    exact row_mergeNested _ _ k
  · show _ ≤ (mergeCounts got.hourly mem.hourly).at_ k
    rw [at_mergeCounts]
    exact (row_mergeNested _ _ k).le.trans (add_le_add (hg.hours k) (hm.hours k))
  · exact mem_mergeCounts.2 ((mem_mergeNested.1 hk).imp (hg.kept k) (hm.kept k))

/-- Both rules, the second where `both` says so. -/
def trim (c : Clock) (both : Bool) (t : Tables) : Tables :=
  { t with
    hourly := trimHourly c t.hourly
    hourlyCfg := if both then trimHourlyCfg c t.hourlyCfg else t.hourlyCfg }

theorem add_eq_trim : t.add d c = trim c d.config.isSome (t.record d) := rfl

theorem merge_eq_trim : Tables.merge got mem c = trim c true (Tables.join got mem) := rfl

theorem lookup_trimHourly (map : Counts Count) (k : String) :
    (trimHourly c map).lookup k = if c.old k then none else map.lookup k := by
  unfold trimHourly
  rw [Counts.lookup_keep]
  cases c.old k <;> rfl

theorem lookup_trimHourlyCfg (map : Counts (Counts Count)) (k : String) :
    (trimHourlyCfg c map).lookup k =
      if HOURLY_RETENTION_HOURS < map.entries.length ∧ ¬c.cutoff ≤ k then none
      else map.lookup k := by
  unfold trimHourlyCfg
  by_cases hlen : map.entries.length ≤ HOURLY_RETENTION_HOURS
  · rw [if_pos hlen, if_neg fun h => absurd hlen (not_le.2 h.1)]
  · rw [if_neg hlen, Counts.lookup_keep]
    by_cases hk : c.cutoff ≤ k
    · rw [if_pos (decide_eq_true hk), if_neg fun h => h.2 hk]
    · rw [if_neg (by simpa using hk), if_pos ⟨not_le.1 hlen, hk⟩]

/-- Where the rules agree, the second drops an hour when the first does. -/
theorem lookup_trimmed (ha : Agree c both t) (k : String) :
    (trim c both t).hourlyCfg.lookup k = if c.old k then none else t.hourlyCfg.lookup k := by
  have hrule : (trim c both t).hourlyCfg.lookup k =
      if both = true ∧ HOURLY_RETENTION_HOURS < t.hourlyCfg.entries.length ∧ ¬c.cutoff ≤ k then none
      else t.hourlyCfg.lookup k := by
    unfold trim
    cases both with
    | false => simp
    | true => simpa using lookup_trimHourlyCfg t.hourlyCfg k
  rw [hrule]
  by_cases hk : k ∈ t.hourlyCfg
  · simp only [ha k hk]
  · rw [AList.lookup_eq_none.2 hk, ite_self, ite_self]

theorem at_trimmed (k : String) :
    (trim c both t).hourly.at_ k = if c.old k then 0 else t.hourly.at_ k := by
  unfold Counts.at_
  rw [show (trim c both t).hourly = trimHourly c t.hourly from rfl, lookup_trimHourly]
  split <;> rfl

theorem row_trimmed (ha : Agree c both t) (k : String) :
    row (trim c both t).hourlyCfg k = if c.old k then ∅ else row t.hourlyCfg k := by
  unfold row
  rw [lookup_trimmed ha]
  split <;> rfl

theorem trim_balanced (h : Balanced all t) (ha : Agree c both t) :
    Balanced all (trim c both t) := by
  refine ⟨h.totals, h.days, h.equal, fun k => ?_, fun k hk => ?_⟩
  · rw [at_trimmed, row_trimmed ha]
    split
    · exact le_refl 0
    · exact h.hours k
  · rw [← AList.lookup_isSome, lookup_trimmed ha] at hk
    rw [← AList.lookup_isSome, show (trim c both t).hourly = trimHourly c t.hourly from rfl,
      lookup_trimHourly]
    split
    · rw [if_pos ‹_›] at hk
      cases hk
    · rw [if_neg ‹_›] at hk
      exact AList.lookup_isSome.2 (h.kept k (AList.lookup_isSome.1 hk))

theorem zero_long : (-2 ^ 63 ≤ (0 : Count).1 ∧ (0 : Count).1 < 2 ^ 63) ∧
    -2 ^ 63 ≤ (0 : Count).2 ∧ (0 : Count).2 < 2 ^ 63 := by decide

/-- Trimming takes counts away and changes none. -/
theorem trim_inLong (h : InLong t) (ha : Agree c both t) : InLong (trim c both t) := by
  intro cell
  cases cell with
  | day k => exact h (.day k)
  | config k => exact h (.config k)
  | dayCfg k cfg => exact h (.dayCfg k cfg)
  | hour k =>
    rw [show (trim c both t).count (.hour k) = (trim c both t).hourly.at_ k from rfl, at_trimmed]
    split
    · exact zero_long
    · exact h (.hour k)
  | hourCfg k cfg =>
    rw [show (trim c both t).count (.hourCfg k cfg) = (row (trim c both t).hourlyCfg k).at_ cfg
      from rfl, row_trimmed ha]
    split
    · exact zero_long
    · exact h (.hourCfg k cfg)

/-! ## Runs -/

/-- Tables as they are kept: a process that finds them there goes on from them. -/
structure Good (all : Prop) (t : Tables) : Prop where
  balanced : Balanced all t
  inLong : InLong t

theorem empty_good : Good all .empty := by
  refine ⟨⟨fun _ => rfl, fun _ => le_refl 0, fun _ _ => rfl, fun _ => le_refl 0,
    fun k hk => absurd hk (AList.notMem_empty k)⟩, fun cell => ?_⟩
  cases cell <;> exact zero_long

theorem add_good (h : Good all t) (hnone : d.config = none → 0 ≤ d.up ∧ 0 ≤ d.down)
    (hall : all → d.config.isSome = true) (hl : InLong (t.record d))
    (ha : Agree c d.config.isSome (t.record d)) : Good all (t.add d c) := by
  rw [add_eq_trim]
  exact ⟨trim_balanced (record_balanced h.balanced hnone hall) ha, trim_inLong hl ha⟩

theorem merge_good (hg : Good all got) (hm : Good all mem) (hl : InLong (Tables.join got mem))
    (ha : Agree c true (Tables.join got mem)) : Good all (Tables.merge got mem c) := by
  rw [merge_eq_trim]
  exact ⟨trim_balanced (join_balanced hg.balanced hm.balanced) ha, trim_inLong hl ha⟩

/-- What the thread of `init` has read is what is on the disk, and good once it has read all. -/
def LoadGood (all : Prop) (s : UState) : Prop :=
  match s.load with
  | .reading [] got => Good all got
  | .reading ks got => ∀ k, k ∉ ks → Tables.Same k got s.disk
  | .done => True

structure Kept (all : Prop) (s : UState) : Prop where
  mem : Good all s.mem
  whole : Whole s → Good all s.disk
  short : s.todo.length ≤ 5
  written : s.todo ≠ [] → ∀ k, k ∉ s.todo → Tables.Same k s.disk s.mem
  load : LoadGood all s

variable {s s' : UState} {now : LocalDateTime}

theorem mem_keys (k : Key) : k ∈ keys := by
  cases k <;> decide

theorem init_kept {disk : Tables} (h : Good all disk) : Kept all (.init disk) where
  mem := empty_good
  whole _ := h
  short := Nat.zero_le 5
  written hne := absurd rfl hne
  load := fun k hk => absurd (mem_keys k) hk

theorem load_kept (h : Kept all s) (hf : Fits s ⟨now, .load⟩)
    (hs : step s (.load now.clock) = some s') : Kept all s' := by
  have hload := h.load
  unfold LoadGood at hload
  unfold Fits at hf
  unfold step at hs
  dsimp only at hf hs
  cases hl : s.load with
  | done =>
    rw [hl] at hs
    cases hs
  | reading ks got =>
    rw [hl] at hs hf hload
    cases ks with
    | nil =>
      dsimp only at hs
      split at hs
      · rename_i htodo
        cases hs
        exact ⟨merge_good hload h.mem hf.1 hf.2, h.whole, h.short, fun hne => absurd htodo hne,
          trivial⟩
      · cases hs
    | cons k ks =>
      cases hs
      refine ⟨h.mem, h.whole, h.short, h.written, ?_⟩
      have hsame : ∀ j, j ∉ ks → Tables.Same j (Tables.copy k s.disk got) s.disk := by
        intro j hj
        by_cases hjk : j = k
        · subst hjk
          exact same_copy_self j s.disk got
        · refine (same_copy_ne hjk s.disk got).trans (hload j ?_)
          rw [List.mem_cons, not_or]
          exact ⟨hjk, hj⟩
      cases ks with
      | nil =>
        show Good all (Tables.copy k s.disk got)
        rw [eq_of_same fun j => hsame j List.not_mem_nil]
        exact h.whole hf
      | cons k' ks => exact hsame

theorem add_kept (h : Kept all s) {up down : Int} {configKey : Option String}
    (hf : Fits s ⟨now, .add up down configKey⟩)
    (hn : all → Names ⟨now, .add up down configKey⟩)
    (hs : step s (.add up down configKey now.clock) = some s') : Kept all s' := by
  unfold step at hs
  dsimp only at hs
  split at hs
  · cases hs
    exact h
  · rename_i hpos
    split at hs
    · rename_i htodo
      cases hs
      obtain ⟨hnone, hl, ha⟩ := hf (by omega)
      have hall : all → (Delta.config ⟨up, down, configKey, now.clock.dayKey,
          now.clock.hourKey⟩).isSome = true := by
        intro hall
        obtain ⟨k, hk, hne⟩ := hn hall (by omega)
        simp [Delta.config, hk, hne]
      have hload := h.load
      refine ⟨add_good h.mem hnone hall hl ha, fun _ => h.whole (.inl htodo), ?_, ?_, hload⟩
      · dsimp only
        split <;> decide
      · dsimp only
        intro _ k hk
        split at hk
        · exact absurd (mem_keys k) hk
        · rename_i hne hp
          rw [if_neg hp] at hne
          exact absurd rfl hne
    · cases hs

theorem persist_kept (h : Kept all s) (hf : Fits s ⟨now, .persist⟩)
    (hs : step s .persist = some s') : Kept all s' := by
  have hload := h.load
  unfold LoadGood at hload
  unfold Fits at hf
  unfold step at hs
  dsimp only at hf hs
  cases ht : s.todo with
  | nil =>
    rw [ht] at hs
    cases hs
  | cons k ks =>
    rw [ht] at hs
    cases hs
    have hshort : ks.length + 1 ≤ 5 := by
      have := h.short
      rw [ht] at this
      exact this
    have hsame : ∀ j, j ∉ ks → Tables.Same j (Tables.copy k s.mem s.disk) s.mem := by
      intro j hj
      by_cases hjk : j = k
      · subst hjk
        exact same_copy_self j s.mem s.disk
      · refine (same_copy_ne hjk s.mem s.disk).trans (h.written (ht ▸ List.cons_ne_nil k ks) j ?_)
        rw [ht, List.mem_cons, not_or]
        exact ⟨hjk, hj⟩
    refine ⟨h.mem, fun hw => ?_, by dsimp only; omega, fun _ => hsame, ?_⟩
    · rcases hw with hw | hw
      · -- the last of the five
        dsimp only at hw ⊢
        rw [eq_of_same fun j => hsame j (hw ▸ List.not_mem_nil)]
        exact h.mem
      · dsimp only at hw
        have hlen : ks.length = 5 := hw ▸ rfl
        omega
    · unfold LoadGood
      dsimp only
      cases hl : s.load with
      | done => trivial
      | reading todo got =>
        rw [hl] at hf hload
        rcases hf with rfl | rfl
        · exact fun j hj => absurd (mem_keys j) hj
        · exact hload

theorem step_kept (s : UState) (e : Event) (s' : UState) (h : Kept all s)
    (hc : Fits s e ∧ (all → Names e)) (hs : stepAt s e = some s') : Kept all s' := by
  obtain ⟨now, act⟩ := e
  cases act with
  | load => exact load_kept h hc.1 hs
  | add up down configKey => exact add_kept h hc.1 hc.2 hs
  | persist => exact persist_kept h hc.1 hs
  | flush =>
    unfold stepAt step at hs
    dsimp only at hs
    split at hs
    · rename_i htodo
      cases hs
      exact ⟨h.mem, fun _ => h.whole (.inl htodo), (by decide : keys.length ≤ 5),
        fun _ k hk => absurd (mem_keys k) hk, h.load⟩
    · cases hs
  | restart =>
    cases hs
    exact init_kept (h.whole hc.1)

/-- A condition and a law that every step obeys are met together. -/
theorem meets_and {C D : UState → Event → Prop} {s : UState} {es : List Event}
    (hc : Meets stepAt C s es) (hd : ∀ s, ∀ e ∈ es, D s e) :
    Meets stepAt (fun s e => C s e ∧ D s e) s es := by
  induction es generalizing s with
  | nil => trivial
  | cons e es ih =>
    refine ⟨⟨hc.1, hd s e List.mem_cons_self⟩, ?_⟩
    have hrest := hc.2
    cases hs : stepAt s e with
    | none => trivial
    | some s' =>
      rw [hs] at hrest
      exact ih hrest fun s e he => hd s e (List.mem_cons_of_mem _ he)

/-- In every run from empty tables whose steps meet the condition the tables agree, and the days
with their configurations exactly where every count was for one. -/
theorem usage_conserved {es : List Event} {s : UState}
    (hc : Meets stepAt Fits (.init .empty) es) (hr : run stepAt (.init .empty) es = some s) :
    Conserved (∀ e ∈ es, Names e) s.mem := by
  have hmeets := meets_and (D := fun _ e => (∀ e ∈ es, Names e) → Names e) hc
    fun _ e he hall => hall e he
  have hkept := run_inv step_kept (init_kept empty_good) hmeets hr
  exact hkept.mem.balanced.conserved hkept.mem.inLong

/-- Midnight of the first of 2026. -/
def newYear : LocalDateTime := ⟨490896 * NANOS_PER_HOUR, by decide⟩

def february : LocalDateTime := ⟨491640 * NANOS_PER_HOUR + 1, by decide⟩

def counted (now : LocalDateTime) : List Event := [⟨now, .add 10 20 (some "a")⟩]

theorem counted_fits (now : LocalDateTime) :
    Meets stepAt Fits (.init .empty) (counted now) := by
  refine ⟨fun _ => ⟨fun hnone => absurd hnone (Option.some_ne_none "a"), fun cell => ?_, fun h hh => ?_⟩, trivial⟩
  · rw [count_record, show Tables.count (UState.init .empty).mem cell = 0 by cases cell <;> rfl,
      zero_add]
    cases cell <;> (unfold Delta.count; dsimp only; split <;> decide)
  · have hkey : h = now.clock.hourKey := (mem_bump.1 hh).resolve_right (AList.notMem_empty h)
    have hold : now.clock.old now.clock.hourKey = false := now.old_hourKey
    rw [hkey, hold]
    refine ⟨fun hf => absurd hf Bool.false_ne_true, fun hboth => ?_⟩
    have hone : HOURLY_RETENTION_HOURS < 1 := hboth.2.1
    exact absurd hone (by decide)

theorem counted_conserved : ∃ s, run stepAt (.init .empty) (counted newYear) = some s ∧
    s.mem.byConfig.at_ "a" = (10, 20) ∧ Conserved (∀ e ∈ counted newYear, Names e) s.mem :=
  ⟨_, rfl, by decide, usage_conserved (counted_fits newYear) rfl⟩

/-- The same configuration is used again when its first hour is past the retention. -/
def usedAgain : List Event := counted newYear ++ [⟨february, .add 1 1 (some "a")⟩]

/-- Its first hour is still there for the configuration and gone from the hours. -/
theorem usedAgain_differs :
    ¬∀ (es : List Event) (s : UState), (es.Pairwise fun e e' => e.now.nanos ≤ e'.now.nanos) →
      run stepAt (.init .empty) es = some s → Conserved (∀ e ∈ es, Names e) s.mem := by
  intro h
  cases hs : run stepAt (.init .empty) usedAgain with
  | none =>
    have : (run stepAt (.init .empty) usedAgain).isSome = true := by decide +kernel
    rw [hs] at this
    cases this
  | some s =>
    have hkeys : (run stepAt (.init .empty) usedAgain).map (fun s =>
        (decide ("2026-01-01-00" ∈ s.mem.hourlyCfg), decide ("2026-01-01-00" ∈ s.mem.hourly))) =
        some (true, false) := by decide +kernel
    rw [hs] at hkeys
    have hkeys := Option.some.inj hkeys
    have hthere := (h usedAgain s (by decide +kernel) hs).hours "2026-01-01-00"
      (of_decide_eq_true (congrArg Prod.fst hkeys))
    exact of_decide_eq_false (congrArg Prod.snd hkeys) hthere.1

end Ghajar.Usage
