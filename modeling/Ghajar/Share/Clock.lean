import Ghajar.Share.Gsb2

/-!
# The guarded clock, over whole runs

A time asked for is the wall clock or the latest time written down, whichever is later,
and it is written down only once it is more than a minute ahead. The times asked for one
after the other are `values`; what they promise is `NeverBack`. A time that was not
written down is forgotten at the next one: `never_back` says exactly when that shows, and
`values_minute` that it is never more than a minute.
-/

namespace Ghajar.Gsb2.Gsb2Store

open Ghajar

/-- What a process does with what is written down. -/
inductive Call where
  | now (clock : Int)
  | addUsage (shareId : String) (bytes : Int)
  /-- The process ends and another one starts: what is written down stays. -/
  | restart

def Call.run (f : Prefs) : Call → Prefs
  | .now clock => (Gsb2Store.now f clock).2
  | .addUsage id bytes => Gsb2Store.addUsage f id bytes
  | .restart => f

/-- The times that the calls return. -/
def values (f : Prefs) : List Call → List Int
  | [] => []
  | .now clock :: cs => (Gsb2Store.now f clock).1 :: values (Gsb2Store.now f clock).2 cs
  | c :: cs => values (c.run f) cs

/-- The wall clock when a time is asked for, and the latest time written down before that. -/
structure Reading where
  clock : Int
  seen : Int

def readings (f : Prefs) : List Call → List Reading
  | [] => []
  | .now clock :: cs => ⟨clock, f.maxSeen⟩ :: readings (Gsb2Store.now f clock).2 cs
  | c :: cs => readings (c.run f) cs

/-- What a share that is blocked for its expiry is blocked with. -/
def expiry (m : Meta) : Verdict := .blocked ("اعتبار اشتراک «" ++ m.shareName ++ "» تمام شده است.")

/-- No time is behind an earlier one, and none lets a share connect again that an earlier one
blocked for its expiry, whatever was used of it by then. -/
def NeverBack (ts : List Int) : Prop :=
  ts.Pairwise fun t t' => t ≤ t' ∧
    ∀ m used used', check m used t = expiry m → check m used' t' = expiry m

/-- Where the clock is behind an earlier reading, that reading had been written down. -/
def Recorded (rs : List Reading) : Prop :=
  rs.Pairwise fun r r' => r.clock ≤ r'.clock ∨ r.clock ≤ r'.seen

section Lemmas

variable {f : Prefs} {c : Call} {cs : List Call} {m : Meta} {used used' t t' : Int}

theorem check_expiry : check m used t = expiry m ↔ 1 ≤ m.expiresAt ∧ m.expiresAt ≤ t := by
  unfold check
  constructor
  · intro h
    split_ifs at h with he hq
    · exact he
    · -- the two texts differ in their first letter
      have := congrArg String.toList (Verdict.blocked.inj h)
      simp [String.toList_append] at this
    · cases h
  · intro h
    rw [if_pos h]
    rfl

theorem check_expiry_of_le (h : t ≤ t') (hc : check m used t = expiry m) :
    check m used' t' = expiry m := by
  obtain ⟨h1, h2⟩ := check_expiry.1 hc
  exact check_expiry.2 ⟨h1, Int.le_trans h2 h⟩

theorem neverBack_iff {ts : List Int} : NeverBack ts ↔ ts.Pairwise (· ≤ ·) := by
  unfold NeverBack
  exact ⟨fun h => h.imp fun h => h.1,
    fun h => h.imp fun h => ⟨h, fun _ _ _ hc => check_expiry_of_le h hc⟩⟩

/-- What is written down never goes back. -/
theorem run_maxSeen : f.maxSeen ≤ (c.run f).maxSeen := by
  cases c with
  | now clock => exact now_maxSeen.1
  | addUsage id bytes =>
    simp only [Call.run, addUsage]
    split <;> exact Int.le_refl _
  | restart => exact Int.le_refl _

theorem readings_seen : ∀ r ∈ readings f cs, f.maxSeen ≤ r.seen := by
  induction cs generalizing f with
  | nil => intro r hr; cases hr
  | cons c cs ih =>
    have hstep : ∀ r ∈ readings (c.run f) cs, f.maxSeen ≤ r.seen := fun r hr =>
      Int.le_trans run_maxSeen (ih r hr)
    cases c with
    | now clock =>
      intro r hr
      rcases List.mem_cons.1 hr with rfl | hr
      · exact Int.le_refl _
      · exact hstep r hr
    | addUsage id bytes => exact hstep
    | restart => exact hstep

/-- A time asked for is the later of its reading's two. -/
theorem values_eq : values f cs = (readings f cs).map fun r => max r.clock r.seen := by
  induction cs generalizing f with
  | nil => rfl
  | cons c cs ih =>
    cases c with
    | now clock =>
      simp only [values, readings, List.map_cons, ih]
      rfl
    | addUsage id bytes => exact ih
    | restart => exact ih

/-- What was written down before a reading was written down before the next ones too. -/
theorem readings_sorted : (readings f cs).Pairwise fun r r' => r.seen ≤ r'.seen := by
  induction cs generalizing f with
  | nil => exact .nil
  | cons c cs ih =>
    cases c with
    | now clock =>
      exact List.pairwise_cons.2 ⟨fun r hr => Int.le_trans now_maxSeen.1 (readings_seen r hr), ih⟩
    | addUsage id bytes => exact ih
    | restart => exact ih

end Lemmas

/-- **A time is never more than a minute behind an earlier one.** -/
theorem values_minute (f : Prefs) (cs : List Call) :
    (values f cs).Pairwise fun t t' => t ≤ t' + 60000 := by
  induction cs generalizing f with
  | nil => exact .nil
  | cons c cs ih =>
    cases c with
    | now clock =>
      refine List.pairwise_cons.2 ⟨?_, ih _⟩
      intro t ht
      rw [values_eq] at ht
      obtain ⟨r, hr, rfl⟩ := List.mem_map.1 ht
      have hseen := readings_seen r hr
      have hnow := (@now_maxSeen f clock).2
      omega
    | addUsage id bytes => exact ih _
    | restart => exact ih _

/-- **When the times never go back**: when no clock is set back behind a reading that was not
written down. -/
theorem never_back (f : Prefs) (cs : List Call) :
    NeverBack (values f cs) ↔ Recorded (readings f cs) := by
  rw [neverBack_iff, values_eq, List.pairwise_map]
  unfold Recorded
  constructor
  · intro h
    refine h.imp fun h => ?_
    omega
  · intro h
    refine (h.and readings_sorted).imp fun h => ?_
    omega

/-- The clock is set back by a minute just after the last moment of a share, and the share is
allowed again. -/
theorem minute_back :
    let f : Prefs := { used := fun _ => 0, maxSeen := 1700000000000 }
    let cs : List Call := [.now 1700000060000, .restart, .now 1700000000000]
    values f cs = [1700000060000, 1700000000000] ∧ ¬ NeverBack (values f cs) := by
  refine ⟨by decide, fun h => ?_⟩
  have := (neverBack_iff.1 h)
  revert this
  decide

end Ghajar.Gsb2.Gsb2Store
