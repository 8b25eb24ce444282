import Mathlib
import Ghajar.Lib.Text

/-!
# The download planner

`DownloadPlanner`: the states of a download, how many segments it gets and where
they lie, the name it gets. The planned segments cover the file,
`planSegments_covers`; the name is one nobody has, `resolveDuplicateName_fresh`.
Offsets are integers; none of them leaves the range of a `Long`.
-/

namespace Ghajar.Download

inductive DownloadState where
  | queued
  | running
  | paused
  | waitingWifi
  | completed
  | failed
  | cancelled
  deriving DecidableEq, Repr

/-- `DownloadSegment`; `last` is its `end`. -/
structure Segment where
  index : Nat
  start : Nat
  downloaded : Nat
  last : Int
  deriving DecidableEq, Repr

def SEGMENT_CHOICES : List Nat := [1, 2, 4, 8]

def segmentCount (acceptRanges : Bool) (totalBytes : Int) : Nat :=
  if !acceptRanges || decide (totalBytes ≤ 0) then 1
  else (SEGMENT_CHOICES.filter fun it : Nat => ((it * 8 * 1024 * 1024 : Nat) : Int) ≤ totalBytes).max?.getD 1

/-- The length of a planned segment. -/
def segmentLength (base remainder index : Nat) : Nat := base + if index < remainder then 1 else 0

/-- The loop of `planSegments`, from `start` on. -/
def layout (base remainder : Nat) : List Nat → Nat → List Segment
  | [], _ => []
  | index :: rest, start =>
    let length := segmentLength base remainder index
    ⟨index, start, 0, start + length - 1⟩ :: layout base remainder rest (start + length)

def planSegments (totalBytes : Int) (count : Nat) : List Segment :=
  if totalBytes ≤ 0 ∨ count ≤ 1 then [⟨0, 0, 0, totalBytes - 1⟩]
  else layout (totalBytes.toNat / count) (totalBytes.toNat % count) (List.range count) 0

/-- Nothing of a segment is left to fetch. -/
def Segment.full (seg : Segment) : Prop := seg.last < seg.start + seg.downloaded

instance (seg : Segment) : Decidable seg.full := by unfold Segment.full; infer_instance

/-- The segments cover `[0, total)` and nothing behind it. -/
structure Covers (segs : List Segment) (total : Int) : Prop where
  inside : ∀ seg ∈ segs, seg.last < total
  every : ∀ o : Nat, (o : Int) < total → ∃ seg ∈ segs, seg.start ≤ o ∧ (o : Int) ≤ seg.last

theorem layout_last {base remainder : Nat} {is : List Nat} {start : Nat} {seg : Segment}
    (h : seg ∈ layout base remainder is start) :
    seg.last < start + ((is.map (segmentLength base remainder)).sum : Nat) := by
  induction is generalizing start with
  | nil => cases h
  | cons i is ih =>
    simp only [layout, List.mem_cons, List.map_cons, List.sum_cons] at h ⊢
    rcases h with rfl | h
    · show ((start : Int) + segmentLength base remainder i - 1) < _
      omega
    · have := ih h
      omega

theorem layout_every {base remainder : Nat} {is : List Nat} {start o : Nat} (hl : start ≤ o)
    (hr : o < start + (is.map (segmentLength base remainder)).sum) :
    ∃ seg ∈ layout base remainder is start, seg.start ≤ o ∧ (o : Int) ≤ seg.last := by
  induction is generalizing start with
  | nil =>
    simp only [List.map_nil, List.sum_nil] at hr
    omega
  | cons i is ih =>
    simp only [List.map_cons, List.sum_cons] at hr
    by_cases ho : o < start + segmentLength base remainder i
    · refine ⟨_, List.mem_cons_self, hl, ?_⟩
      show (o : Int) ≤ start + segmentLength base remainder i - 1
      omega
    · obtain ⟨seg, hm, hs⟩ := ih (by omega : start + segmentLength base remainder i ≤ o) (by omega)
      exact ⟨seg, List.mem_cons_of_mem _ hm, hs⟩

/-- The first `n` segments share `base` each, and the remainder one by one. -/
theorem sum_segmentLength (base remainder n : Nat) :
    ((List.range n).map (segmentLength base remainder)).sum = base * n + min remainder n := by
  induction n with
  | zero => simp
  | succ n ih =>
    rw [List.range_succ, List.map_append, List.sum_append, ih]
    simp only [List.map_cons, List.map_nil, List.sum_cons, List.sum_nil, segmentLength,
      Nat.mul_succ]
    split <;> omega

theorem sum_total {total count : Nat} (hc : 1 < count) :
    ((List.range count).map (segmentLength (total / count) (total % count))).sum = total := by
  have hlt : total % count < count := Nat.mod_lt _ (by omega)
  have hdiv := Nat.div_add_mod total count
  rw [sum_segmentLength, Nat.mul_comm]
  omega

/-- **The planned segments cover the file**, whatever their number. -/
theorem planSegments_covers {total : Int} (count : Nat) (ht : 0 < total) :
    Covers (planSegments total count) total := by
  unfold planSegments
  split
  · refine ⟨fun seg hs => ?_, fun o ho => ⟨_, List.mem_cons_self, Nat.zero_le _, ?_⟩⟩
    · rw [List.mem_singleton.1 hs]
      show total - 1 < total
      omega
    · show (o : Int) ≤ total - 1
      omega
  · rename_i hcount
    have hc : 1 < count := by omega
    have hsum : _ = total.toNat := sum_total hc
    refine ⟨fun seg hs => ?_, fun o ho => layout_every (Nat.zero_le _) ?_⟩
    · have hlast := layout_last hs
      rw [hsum] at hlast
      omega
    · rw [hsum]
      omega

theorem layout_downloaded {base remainder : Nat} {is : List Nat} {start : Nat} {seg : Segment}
    (h : seg ∈ layout base remainder is start) : seg.downloaded = 0 := by
  induction is generalizing start with
  | nil => cases h
  | cons i is ih =>
    rcases List.mem_cons.1 h with rfl | h
    · rfl
    · exact ih h

/-- A new plan has fetched nothing. -/
theorem planSegments_downloaded {total : Int} {count : Nat} {seg : Segment}
    (h : seg ∈ planSegments total count) : seg.downloaded = 0 := by
  unfold planSegments at h
  split at h
  · rw [List.mem_singleton.1 h]
  · exact layout_downloaded h

/-! ## Names -/

/-- `requested.replace(Regex("[\\x00/\\\\]"), "_").ifBlank { "download" }`. -/
def safeName (requested : String) : List Char :=
  let cs := requested.toList.map fun c =>
    if c = Char.ofNat 0 ∨ c = '/' ∨ c = Char.ofNat 92 then '_' else c
  if Text.isBlank cs then "download".toList else cs

/-- `safe.lastIndexOf('.')`, and what lies before and behind it. -/
def stemExt (safe : List Char) : List Char × List Char :=
  let ext := safe.reverse.takeWhile (· ≠ '.')
  let dot := safe.length - ext.length - 1
  if ext.length < safe.length ∧ 0 < dot then (safe.take dot, safe.drop dot) else (safe, [])

/-- `"$stem ($counter)$ext"`. -/
def candidate (stem ext : List Char) (counter : Nat) : String :=
  String.ofList stem ++ " (" ++ counter.repr ++ ")" ++ String.ofList ext

/-- The loop over the counter; `fuel` bounds its rounds. -/
def firstFree (existing : List String) (name : Nat → String) : Nat → Nat → String
  | 0, counter => name counter
  | fuel + 1, counter =>
    if name counter ∈ existing then firstFree existing name fuel (counter + 1) else name counter

def resolveDuplicateName (existing : List String) (requested : String) : String :=
  let safe := safeName requested
  if String.ofList safe ∉ existing then String.ofList safe
  else
    let (stem, ext) := stemExt safe
    firstFree existing (candidate stem ext) existing.length 2

theorem candidate_injective (stem ext : List Char) : Function.Injective (candidate stem ext) := by
  intro m n h
  simp only [candidate, String.append_left_inj, String.append_right_inj] at h
  exact Nat.repr_injective h

/-- If the loop ends on a name that exists, every name it tried exists. -/
theorem firstFree_mem {existing : List String} {name : Nat → String} {fuel counter : Nat}
    (h : firstFree existing name fuel counter ∈ existing) :
    ∀ i ≤ fuel, name (counter + i) ∈ existing := by
  induction fuel generalizing counter with
  | zero =>
    intro i hi
    obtain rfl : i = 0 := by omega
    exact h
  | succ fuel ih =>
    simp only [firstFree] at h
    split at h
    · rename_i hc
      intro i hi
      cases i with
      | zero => exact hc
      | succ i =>
        have := ih h i (by omega)
        rwa [show counter + 1 + i = counter + (i + 1) by omega] at this
    · exact absurd h ‹_›

/-- As many rounds as there are names are enough. -/
theorem firstFree_fresh {existing : List String} {name : Nat → String}
    (hn : Function.Injective name) (counter : Nat) :
    firstFree existing name existing.length counter ∉ existing := by
  intro h
  have hall := firstFree_mem h
  have hsub : (List.range (existing.length + 1)).map (fun i => name (counter + i)) ⊆ existing := by
    intro x hx
    obtain ⟨i, hi, rfl⟩ := List.mem_map.1 hx
    exact hall i (Nat.le_of_lt_succ (List.mem_range.1 hi))
  have hnodup : ((List.range (existing.length + 1)).map (fun i => name (counter + i))).Nodup :=
    List.nodup_range.map fun i j hij => Nat.add_left_cancel (hn hij)
  have hle := (hnodup.subperm hsub).length_le
  simp only [List.length_map, List.length_range] at hle
  omega

/-- **A new download gets a name nobody has.** -/
theorem resolveDuplicateName_fresh (existing : List String) (requested : String) :
    resolveDuplicateName existing requested ∉ existing := by
  simp only [resolveDuplicateName]
  split
  · assumption
  · exact firstFree_fresh (candidate_injective _ _) 2

end Ghajar.Download
