/-!
# Random access files

A file is its length and what was written at each offset; `none` is a zero byte
that nobody wrote. `setLength` and `write` are those of a file opened for random
access: what lies between the old end and the written range is zero.
-/

structure RandomFile (α : Type) where
  length : Nat
  cell : Nat → Option α

namespace RandomFile

variable {α : Type}

def empty : RandomFile α := ⟨0, fun _ => none⟩

def setLength (f : RandomFile α) (n : Nat) : RandomFile α :=
  ⟨n, fun o => if o < n ∧ o < f.length then f.cell o else none⟩

def write (f : RandomFile α) (pos : Nat) (cs : List α) : RandomFile α :=
  ⟨max f.length (pos + cs.length), fun o =>
    if pos ≤ o ∧ o < pos + cs.length then cs[o - pos]?
    else if o < f.length then f.cell o else none⟩

/-- The file holds at the offset a written value with the property. -/
def Holds (f : RandomFile α) (P : α → Prop) (o : Nat) : Prop :=
  o < f.length ∧ ∃ a, f.cell o = some a ∧ P a

variable {f : RandomFile α} {P : α → Prop} {pos o : Nat} {cs : List α}

/-- A written value is found where it was written. -/
theorem holds_written (hl : pos ≤ o) (hr : o < pos + cs.length)
    (hP : ∀ a, cs[o - pos]? = some a → P a) : (f.write pos cs).Holds P o := by
  have hlt : o - pos < cs.length := by omega
  refine ⟨?_, cs[o - pos], ?_, hP _ (List.getElem?_eq_getElem hlt)⟩
  · show o < max f.length (pos + cs.length)
    omega
  · simp only [write, hl, hr, and_self, if_true, List.getElem?_eq_getElem hlt]

/-- Writing values with the property keeps what was found. -/
theorem holds_write (h : f.Holds P o)
    (hP : ∀ m a, cs[m]? = some a → pos + m = o → P a) : (f.write pos cs).Holds P o := by
  by_cases hin : pos ≤ o ∧ o < pos + cs.length
  · exact holds_written hin.1 hin.2 fun a ha => hP _ a ha (by omega)
  · obtain ⟨hlt, a, ha, hPa⟩ := h
    refine ⟨?_, a, ?_, hPa⟩
    · show o < max f.length (pos + cs.length)
      omega
    · simp only [write, hin, hlt, if_false, if_true, ha]

/-- Inside the file a write does not change the length. -/
theorem length_write (h : pos + cs.length ≤ f.length) : (f.write pos cs).length = f.length :=
  Nat.max_eq_left h

end RandomFile
