import Ghajar.Download.Segment

/-!
# Segments side by side

`Tiles` is a list of segments that lie one behind the other and are none of them empty; an offset
between the first and the last is then in exactly one of them (`tiles_unique`). Every plan is one.
What a worker writes ends with its segment, whatever the portions are in which a reply is read.
-/

namespace RandomFile

variable {α : Type} {f g h : RandomFile α} {pos o : Nat} {cs : List α}

/-- At the offset the two files are the same. -/
def Same (o : Nat) (f g : RandomFile α) : Prop :=
  (o < g.length ↔ o < f.length) ∧ (o < f.length → g.cell o = f.cell o)

theorem same_refl : Same o f f := ⟨Iff.rfl, fun _ => rfl⟩

theorem same_trans (h₁ : Same o f g) (h₂ : Same o g h) : Same o f h :=
  ⟨h₂.1.trans h₁.1, fun ho => (h₂.2 (h₁.1.2 ho)).trans (h₁.2 ho)⟩

/-- A write changes nothing behind it. -/
theorem same_write (ho : pos + cs.length ≤ o) : Same o f (f.write pos cs) := by
  refine ⟨?_, fun hf => ?_⟩
  · show o < max f.length (pos + cs.length) ↔ o < f.length
    omega
  · show (if pos ≤ o ∧ o < pos + cs.length then _ else if o < f.length then f.cell o else none) = _
    rw [if_neg (by omega), if_pos hf]

end RandomFile

namespace Ghajar.Download

open Run

/-! ## Plans -/

def Segment.length (seg : Segment) : Int := seg.last - seg.start + 1

/-- From `start` on, one segment behind the other, up to `total`. -/
def Tiles : List Segment → Int → Int → Prop
  | [], start, total => start = total
  | seg :: segs, start, total => seg.start = start ∧ 0 < seg.length ∧ Tiles segs (seg.last + 1) total

section Plans

variable {segs : List Segment} {seg : Segment} {start total : Int} {base remainder count from_ : Nat}
  {is : List Nat}

theorem tiles_bounds (h : Tiles segs start total) :
    start ≤ total ∧ ∀ seg ∈ segs, start ≤ seg.start ∧ seg.last < total := by
  induction segs generalizing start with
  | nil => exact ⟨le_of_eq h, fun seg hs => absurd hs List.not_mem_nil⟩
  | cons seg segs ih =>
    obtain ⟨hstart, hpos, hrest⟩ := h
    obtain ⟨hle, hall⟩ := ih hrest
    rw [Segment.length] at hpos
    refine ⟨by omega, List.forall_mem_cons.2 ⟨by omega, fun s hs => ?_⟩⟩
    have := hall s hs
    omega

/-- Every offset is in exactly one segment. -/
theorem tiles_unique (h : Tiles segs start total) {o : Int} (hlo : start ≤ o) (hhi : o < total) :
    ∃! i : Nat, ∃ seg, segs[i]? = some seg ∧ (seg.start : Int) ≤ o ∧ o ≤ seg.last := by
  induction segs generalizing start with
  | nil =>
    have hst : start = total := h
    omega
  | cons seg segs ih =>
    obtain ⟨hstart, hpos, hrest⟩ := h
    rw [Segment.length] at hpos
    by_cases hin : o ≤ seg.last
    · refine ⟨0, ⟨seg, rfl, by omega, hin⟩, ?_⟩
      rintro (_ | j) ⟨s, hs, hs1, hs2⟩
      · rfl
      · have := (tiles_bounds hrest).2 s (List.mem_of_getElem? hs)
        omega
    · obtain ⟨i, ⟨s, hs, hin⟩, huniq⟩ := ih hrest (by omega)
      refine ⟨i + 1, ⟨s, hs, hin⟩, ?_⟩
      rintro (_ | j) ⟨t, ht, ht1, ht2⟩
      · obtain rfl : seg = t := Option.some.inj ht
        omega
      · exact congrArg (· + 1) (huniq j ⟨t, ht, ht1, ht2⟩)

theorem layout_tiles (hpos : ∀ i ∈ is, 0 < segmentLength base remainder i) :
    Tiles (layout base remainder is from_) from_
      (from_ + ((is.map (segmentLength base remainder)).sum : Nat)) := by
  induction is generalizing from_ with
  | nil => simp [layout, Tiles]
  | cons i is ih =>
    have hi := hpos i List.mem_cons_self
    have hrest := @ih (from_ + segmentLength base remainder i)
      (fun j hj => hpos j (List.mem_cons_of_mem i hj))
    refine ⟨rfl, ?_, ?_⟩
    · show 0 < (from_ + segmentLength base remainder i - 1 : Int) - from_ + 1
      omega
    · simp only [List.map_cons, List.sum_cons]
      convert hrest using 1 <;> push_cast <;> ring

theorem layout_length : (layout base remainder is from_).length = is.length := by
  induction is generalizing from_ with
  | nil => rfl
  | cons i is ih => exact congrArg (· + 1) ih

theorem layout_sizes (h : seg ∈ layout base remainder is from_) :
    seg.length = base ∨ seg.length = base + 1 := by
  induction is generalizing from_ with
  | nil => cases h
  | cons i is ih =>
    rcases List.mem_cons.1 h with rfl | h
    · have hlength : (⟨i, from_, 0, from_ + segmentLength base remainder i - 1⟩ : Segment).length =
          segmentLength base remainder i := by
        simp only [Segment.length]
        omega
      rw [hlength]
      unfold segmentLength
      split <;> omega
    · exact ih h

/-- How many segments there are: one, or no more than eight mebibytes allow each. -/
theorem segmentCount_cases (acceptRanges : Bool) (total : Int) :
    segmentCount acceptRanges total = 1 ∨
      (segmentCount acceptRanges total * 8 * 1024 * 1024 : Int) ≤ total ∧
        1 ≤ segmentCount acceptRanges total := by
  unfold segmentCount
  split
  · exact .inl rfl
  · cases hmax : (SEGMENT_CHOICES.filter fun it : Nat =>
        ((it * 8 * 1024 * 1024 : Nat) : Int) ≤ total).max? with
    | none => exact .inl rfl
    | some n =>
      have hmem := List.max?_mem hmax
      obtain ⟨hchoice, hle⟩ := List.mem_filter.1 hmem
      rw [decide_eq_true_eq] at hle
      refine .inr ⟨by simpa using hle, ?_⟩
      simp only [SEGMENT_CHOICES, List.mem_cons, List.not_mem_nil, or_false] at hchoice
      simp only [Option.getD_some]
      omega

/-- A plan of that many segments. -/
theorem planSegments_tiles {total : Int} (ht : 0 < total) (hc : 1 ≤ count)
    (hfit : (count : Int) ≤ total) :
    (planSegments total count).length = count ∧ Tiles (planSegments total count) 0 total ∧
      ∀ a ∈ planSegments total count, ∀ b ∈ planSegments total count, a.length ≤ b.length + 1 := by
  unfold planSegments
  split
  · obtain rfl : count = 1 := by omega
    refine ⟨rfl, ⟨rfl, ?_, ?_⟩, fun a ha b hb => ?_⟩
    · show 0 < total - 1 - (0 : Nat) + 1
      omega
    · show total - 1 + 1 = total
      omega
    · rw [List.mem_singleton.1 ha, List.mem_singleton.1 hb]
      omega
  · next hcount =>
    have hone : 1 < count := by omega
    have hbase : 0 < total.toNat / count := Nat.div_pos (by omega) (by omega)
    have hsum := @sum_total total.toNat _ hone
    refine ⟨by rw [layout_length, List.length_range], ?_, fun a ha b hb => ?_⟩
    · have h := @layout_tiles (total.toNat / count) (total.toNat % count) 0 (List.range count)
        fun i _ => by
          unfold segmentLength
          omega
      rw [hsum] at h
      have htotal : ((0 : Nat) : Int) + (total.toNat : Int) = total := by omega
      rwa [htotal] at h
    · have := layout_sizes ha
      have := layout_sizes hb
      omega

end Plans

/-! ## What a worker writes -/

section Writes

variable {d d' : Disk} {w w' : Worker} {stop : Bool} {n fd o : Nat} {replies : Nat → Reply}
  {f g : Fetch}

theorem file_of_update (d : Disk) (fd k : Nat) (x : PartFile) :
    (d.update fd x).file k = if k = fd ∧ fd < d.files.length then x else d.file k := by
  simp only [Disk.update, Disk.file, List.getD_eq_getElem?_getD, List.getElem?_set]
  by_cases hk : fd = k
  · subst hk
    by_cases hl : fd < d.files.length
    · simp [hl]
    · simp [hl]
  · simp [hk, Ne.symm hk]

theorem file_openPart (d : Disk) (k : Nat) : d.openPart.1.file k = d.file k := by
  unfold Disk.openPart
  split
  · rfl
  · simp only [Disk.file, List.getD_eq_getElem?_getD]
    rcases Nat.lt_trichotomy k d.files.length with hk | rfl | hk
    · rw [List.getElem?_append_left hk]
    · simp
    · rw [List.getElem?_eq_none (by simp; omega), List.getElem?_eq_none (by omega)]

/-- A step of a worker leaves its segment where it is, and every byte behind it. -/
theorem work_same (h : w.work d stop n = some (d', w')) :
    w'.segment.last = w.segment.last ∧
      (w.segment.last < o → RandomFile.Same o (d.file fd) (d'.file fd)) := by
  have hkept (d : Disk) : RandomFile.Same o (d.file fd) (d.file fd) := RandomFile.same_refl
  unfold Worker.work at h
  split at h
  · split at h <;> cases h <;> exact ⟨rfl, fun _ => hkept d⟩
  · next fd' position offset body hp =>
    split at h
    · cases h
      exact ⟨rfl, fun _ => hkept d⟩
    · next hgo =>
      split at h
      · next hn =>
        cases h
        refine ⟨rfl, fun ho => ?_⟩
        have hpos : (position : Int) ≤ w.segment.last := by
          simp only [Bool.or_eq_true, decide_eq_true_eq, not_or] at hgo
          omega
        have hlimit := readLimit_le hpos
        have hlen : (sent offset (body.take n)).length = n := by
          rw [sent, List.length_mapIdx, List.length_take, Nat.min_eq_left hn.2.1]
        rw [file_of_update]
        split
        · next hfd =>
          rw [hfd.1]
          exact RandomFile.same_write (by omega)
        · exact hkept d
      · cases h
  · cases h

theorem step_same {m : Move} (h : f.step replies m = some g) :
    g.worker.segment.last = f.worker.segment.last ∧
      (f.worker.segment.last < o → RandomFile.Same o (f.disk.file fd) (g.disk.file fd)) := by
  cases m with
  | halt =>
    simp only [Fetch.step] at h
    split at h <;> cases h
    exact ⟨rfl, fun _ => RandomFile.same_refl⟩
  | work n =>
    simp only [Fetch.step] at h
    cases hw : f.worker.work f.disk f.stop n with
    | none =>
      rw [hw] at h
      cases h
    | some q =>
      rw [hw] at h
      cases h
      exact work_same hw
  | answer =>
    simp only [Fetch.step] at h
    cases hw : f.worker.reply f.disk (replies f.answered) with
    | none =>
      rw [hw] at h
      cases h
    | some q =>
      rw [hw] at h
      cases h
      unfold Worker.reply at hw
      split at hw
      · split at hw
        · cases hw
          exact ⟨rfl, fun _ => RandomFile.same_refl⟩
        · split at hw <;> cases hw
          · refine ⟨rfl, fun _ => ?_⟩
            show RandomFile.Same o (f.disk.file fd) (f.disk.openPart.1.file fd)
            rw [file_openPart]
            exact RandomFile.same_refl
          · exact ⟨rfl, fun _ => RandomFile.same_refl⟩
      · cases hw
  | throw =>
    simp only [Fetch.step, Worker.throw] at h
    split at h
    · cases h
    · cases h
      exact ⟨rfl, fun _ => RandomFile.same_refl⟩

theorem run_same {moves : List Move} (h : run (Fetch.step replies) f moves = some g) :
    g.worker.segment.last = f.worker.segment.last ∧
      (f.worker.segment.last < o → RandomFile.Same o (f.disk.file fd) (g.disk.file fd)) := by
  induction moves generalizing f with
  | nil =>
    cases h
    exact ⟨rfl, fun _ => RandomFile.same_refl⟩
  | cons m moves ih =>
    rw [run] at h
    cases hs : f.step replies m with
    | none =>
      rw [hs] at h
      cases h
    | some f' =>
      rw [hs] at h
      obtain ⟨hlast, hsame⟩ := @step_same fd o _ _ _ _ hs
      obtain ⟨hlast', hsame'⟩ := ih h
      refine ⟨hlast'.trans hlast, fun ho => ?_⟩
      exact RandomFile.same_trans (hsame ho) (hsame' (by omega))

end Writes

/-- **Segments and what is written of them.** For every size and the number of segments that it
gets, the plan has that many, one behind the other from the first byte to the last, none empty and
no two further apart in size than a byte, so that every offset is in exactly one. And whatever is
replied, in whatever portions it is read, a worker changes no byte behind the end of its
segment. -/
theorem planned_and_copied :
    (∀ (acceptRanges : Bool) (total : Int), 0 < total →
      let count := segmentCount acceptRanges total
      let segs := planSegments total count
      segs.length = count ∧ Tiles segs 0 total ∧
        (∀ o : Int, 0 ≤ o → o < total →
          ∃! i : Nat, ∃ seg, segs[i]? = some seg ∧ (seg.start : Int) ≤ o ∧ o ≤ seg.last) ∧
        (∀ seg ∈ segs, seg.last < total) ∧
        ∀ a ∈ segs, ∀ b ∈ segs, a.length ≤ b.length + 1) ∧
    ∀ (replies : Nat → Reply) (f g : Fetch) (moves : List Move),
      run (Fetch.step replies) f moves = some g →
      ∀ fd o : Nat, f.worker.segment.last < o →
        RandomFile.Same o (f.disk.file fd) (g.disk.file fd) := by
  refine ⟨fun acceptRanges total ht => ?_, fun replies f g moves h fd o ho =>
    (run_same h).2 ho⟩
  have hfit : 1 ≤ segmentCount acceptRanges total ∧
      (segmentCount acceptRanges total : Int) ≤ total := by
    rcases segmentCount_cases acceptRanges total with h | h
    · omega
    · omega
  obtain ⟨hlen, htiles, hsizes⟩ := planSegments_tiles ht hfit.1 hfit.2
  exact ⟨hlen, htiles, fun o hlo hhi => tiles_unique htiles hlo hhi,
    fun seg hs => ((tiles_bounds htiles).2 seg hs).2, hsizes⟩

/-- Sixteen mebibytes and a byte, in two segments. -/
theorem planned_and_copied_two :
    Tiles (planSegments 16777217 (segmentCount true 16777217)) 0 16777217 :=
  (planned_and_copied.1 true 16777217 (by decide)).2.1

end Ghajar.Download
