import Mathlib
import Ghajar.Engine.Unchanged
import Ghajar.Npv.Returns

/-!
# Sentinels of a text

`Cut` is the one way to read a text from left to right: up to the first sentinel, its token, and on
behind it (`cut_unique`). `decodeSentinels` puts what a token stands for in the place of each
sentinel and leaves the rest alone (`decode_cut`), so a text stays as it is exactly when none of its
sentinels stands for anything (`decode_eq_iff`).
-/

namespace Ghajar.Npv

open Search

abbrev mark : List Char := sentinelPrefix.toList

/-- The sentinels of a text, each with the text before it, and the text behind the last. -/
inductive Cut : List Char → List (List Char × List Char) → List Char → Prop
  | last {s : List Char} (h : ¬mark <:+: s) : Cut s [] s
  | sentinel {plain tok rest last : List Char} {ps : List (List Char × List Char)}
      (first : ∀ j < plain.length, ¬At mark (plain ++ (mark ++ (tok ++ rest))) j)
      (digits : ∀ c ∈ tok, isSentinel c) (ends : ∀ c ∈ rest.head?, ¬isSentinel c)
      (h : Cut rest ps last) : Cut (plain ++ (mark ++ (tok ++ rest))) ((plain, tok) :: ps) last

variable {p : Platform} {s t plain tok rest last last' : List Char}
  {ps ps' : List (List Char × List Char)} {n : ℕ}

theorem mark_ne_nil : mark ≠ [] := by decide

theorem index_sentinel (first : ∀ j < plain.length, ¬At mark (plain ++ (mark ++ t)) j) :
    Search.index mark (plain ++ (mark ++ t)) = some plain.length := by
  refine index_eq_some.2 ⟨by simp, ?_, first⟩
  rw [At, List.drop_left]
  exact List.prefix_append _ _

theorem takeWhile_token (digits : ∀ c ∈ tok, isSentinel c)
    (ends : ∀ c ∈ rest.head?, ¬isSentinel c) : (tok ++ rest).takeWhile isSentinel = tok := by
  rw [List.takeWhile_append_of_pos digits]
  cases rest with
  | nil => simp
  | cons c rest =>
    have hc := ends c rfl
    rw [List.takeWhile_cons_of_neg hc, List.append_nil]

/-- There is one way to cut a text. -/
theorem cut_unique (h : Cut s ps last) (h' : Cut s ps' last') : ps = ps' ∧ last = last' := by
  induction h generalizing ps' last' with
  | last hno =>
    cases h' with
    | last => exact ⟨rfl, rfl⟩
    | sentinel => exact absurd ⟨_, _, List.append_assoc _ _ _⟩ hno
  | @sentinel plain tok rest last ps first digits ends h ih =>
    have hi := index_sentinel first
    generalize ht : plain ++ (mark ++ (tok ++ rest)) = t at h' hi
    cases h' with
    | last hno => exact absurd ⟨plain, tok ++ rest, by rw [← ht, List.append_assoc]⟩ hno
    | @sentinel plain' tok' rest' last' ps' first' digits' ends' h' =>
      have hlen : plain'.length = plain.length :=
        Option.some.inj ((index_sentinel first').symm.trans hi)
      obtain ⟨rfl, hrest⟩ := List.append_inj ht hlen.symm
      have hrest := List.append_cancel_left hrest
      have htok : tok = tok' := by
        rw [← takeWhile_token digits ends, hrest, takeWhile_token digits' ends']
      subst htok
      obtain rfl := List.append_cancel_left hrest
      obtain ⟨rfl, rfl⟩ := ih h'
      exact ⟨rfl, rfl⟩

/-- What is before the first sentinel, its token, and the rest. -/
theorem found {i : ℕ} (hi : Search.index mark s = some i) : ∃ plain tok rest,
    s = plain ++ (mark ++ (tok ++ rest)) ∧ (∀ j < plain.length, ¬At mark s j) ∧
      (∀ c ∈ tok, isSentinel c) ∧ ∀ c ∈ rest.head?, ¬isSentinel c := by
  obtain ⟨hle, ⟨t, ht⟩, hfirst⟩ := index_eq_some.1 hi
  refine ⟨s.take i, t.takeWhile isSentinel, t.dropWhile isSentinel, ?_, fun j hj => ?_,
    fun c hc => List.mem_takeWhile_imp hc, fun c hc => ?_⟩
  · rw [List.takeWhile_append_dropWhile, ht, List.take_append_drop]
  · rw [List.length_take] at hj
    exact hfirst j (by omega)
  · have hne : t.dropWhile isSentinel ≠ [] := by
      rintro hnil
      rw [hnil] at hc
      cases hc
    have hnot := List.head_dropWhile_not isSentinel hne
    rw [List.head?_eq_some_head hne] at hc
    rw [Option.mem_some.1 hc] at hnot
    exact Bool.eq_false_iff.1 hnot

theorem cut_exists (s : List Char) : ∃ ps last, Cut s ps last := by
  induction hn : s.length using Nat.strong_induction_on generalizing s with
  | _ n ih =>
    cases hi : Search.index mark s with
    | none =>
      refine ⟨[], s, .last fun hin => ?_⟩
      obtain ⟨i, hat⟩ := infix_iff.1 hin
      exact (index_eq_none mark_ne_nil).1 hi i hat
    | some i =>
      obtain ⟨plain, tok, rest, rfl, first, digits, ends⟩ := found hi
      obtain ⟨ps, last, h⟩ := ih rest.length (by
        have hm : mark.length = 6 := by decide
        simp only [List.length_append] at hn
        omega) rest rfl
      exact ⟨_, last, .sentinel first digits ends h⟩

/-! ## What is put in their places -/

variable (p) in
/-- What stands in the place of a sentinel: itself, if its token is not well formed. -/
def inPlace (tok : List Char) : List Char :=
  match sentinel (String.ofList tok) with
  | none => mark ++ tok
  | some bytes => (p.utf8 bytes).toList

theorem decodeN_cut (h : Cut s ps last) (hn : s.length ≤ n) :
    decodeN p n s = ps.flatMap (fun q => q.1 ++ inPlace p q.2) ++ last := by
  induction h generalizing n with
  | @last s hno =>
    cases n with
    | zero => rfl
    | succ n =>
      have hnone : Search.index mark s = none :=
        (index_eq_none mark_ne_nil).2 fun i hi => hno (infix_iff.2 ⟨i, hi⟩)
      rw [decodeN, hnone]
      rfl
  | @sentinel plain tok rest last ps first digits ends h ih =>
    have hm : mark.length = 6 := by decide
    simp only [List.length_append] at hn
    obtain ⟨m, rfl⟩ : ∃ m, n = m + 1 := ⟨n - 1, by omega⟩
    have hbehind : (plain ++ (mark ++ (tok ++ rest))).drop (plain.length + mark.length) =
        tok ++ rest := by
      rw [← List.drop_drop, List.drop_left, List.drop_left]
    rw [decodeN, index_sentinel first]
    simp only [hbehind, takeWhile_token digits ends, List.drop_left, List.take_left,
      ih (n := m) (by omega), List.flatMap_cons, List.append_assoc]
    rfl

/-- Each sentinel is replaced once, and every other character stays. -/
theorem decode_cut {s : String} (h : Cut s.toList ps last) :
    decodeSentinels p s = String.ofList (ps.flatMap (fun q => q.1 ++ inPlace p q.2) ++ last) := by
  rw [decodeSentinels, decodeN_cut h (Nat.le_refl _)]

theorem join_pieces (h : Cut s ps last) : s = ps.flatMap (fun q => q.1 ++ (mark ++ q.2)) ++ last := by
  induction h with
  | last => rfl
  | sentinel _ _ _ _ ih =>
    conv_lhs => rw [ih]
    simp

/-! ## Texts that stay as they are -/

theorem sentinel_length {tok : String} {b : List UInt8} (h : sentinel tok = some b) :
    b.length ≤ tok.toList.length + 3 := by
  have hdec {a : Base64.Alphabet} {t : String} (ht : decodeBase64 a t = some b) :
      b.length ≤ t.toList.length := by
    unfold decodeBase64 at ht
    split at ht
    · exact Base64.decode_length ht
    · cases ht
  unfold sentinel at h
  rcases Option.or_eq_some_iff.1 h with h | ⟨-, h⟩
  · have := hdec h
    omega
  rcases Option.or_eq_some_iff.1 h with h | ⟨-, h⟩
  · have := hdec h
    omega
  · have := hdec h
    simp only [padded, String.toList_append, String.toList_ofList, List.length_append,
      List.length_replicate] at this
    omega

/-- A text is shorter than its sentinel. -/
theorem inPlace_length (tok : List Char) : (inPlace p tok).length ≤ (mark ++ tok).length ∧
    (sentinel (String.ofList tok) ≠ none → (inPlace p tok).length < (mark ++ tok).length) := by
  have hm : mark.length = 6 := by decide
  unfold inPlace
  split
  case h_1 h => exact ⟨Nat.le_refl _, fun hne => absurd h hne⟩
  case h_2 b h =>
    have hb := sentinel_length h
    have hd := @Utf8.decodeN_length p.replaced b.length b
    have hu : (p.utf8 b).toList.length = (Utf8.decodeN p.replaced b.length b).length := by
      rw [Platform.utf8, String.toList_ofList, Utf8.decode]
    rw [String.toList_ofList] at hb
    rw [List.length_append]
    exact ⟨by omega, fun _ => by omega⟩

/-- None of the sentinels of the text stands for another text. -/
def NoSentinel (s : String) : Prop :=
  ∀ ps last, Cut s.toList ps last → ∀ q ∈ ps, sentinel (String.ofList q.2) = none

theorem pieces_length (ps : List (List Char × List Char)) :
    (ps.flatMap fun q => q.1 ++ inPlace p q.2).length ≤
        (ps.flatMap fun q => q.1 ++ (mark ++ q.2)).length ∧
      ((∃ q ∈ ps, sentinel (String.ofList q.2) ≠ none) →
        (ps.flatMap fun q => q.1 ++ inPlace p q.2).length <
          (ps.flatMap fun q => q.1 ++ (mark ++ q.2)).length) := by
  induction ps with
  | nil => exact ⟨Nat.le_refl _, fun ⟨q, hq, _⟩ => absurd hq List.not_mem_nil⟩
  | cons q ps ih =>
    have hq := inPlace_length (p := p) q.2
    simp only [List.flatMap_cons, List.length_append, List.mem_cons, exists_eq_or_imp] at ih hq ⊢
    refine ⟨by omega, ?_⟩
    rintro (hne | hrest)
    · have := hq.2 hne
      omega
    · have := ih.2 hrest
      omega

theorem decode_length (s : String) : (decodeSentinels p s).toList.length ≤ s.toList.length := by
  obtain ⟨ps, last, h⟩ := cut_exists s.toList
  have hle := (pieces_length (p := p) ps).1
  rw [decode_cut h, String.toList_ofList]
  conv_rhs => rw [join_pieces h]
  simp only [List.length_append]
  omega

theorem decode_eq_iff (s : String) : decodeSentinels p s = s ↔ NoSentinel s := by
  obtain ⟨ps, last, h⟩ := cut_exists s.toList
  have hjoin := join_pieces h
  constructor
  · intro he ps' last' h' q hq
    obtain ⟨rfl, rfl⟩ := cut_unique h h'
    by_contra hne
    have hlt := (pieces_length (p := p) ps).2 ⟨q, hq, hne⟩
    have hlen := congrArg (fun s => s.toList.length) he
    simp only [decode_cut h, String.toList_ofList] at hlen
    rw [hjoin] at hlen
    simp only [List.length_append] at hlen
    omega
  · intro hno
    have hall := hno ps last h
    have hsame : ps.flatMap (fun q => q.1 ++ inPlace p q.2) =
        ps.flatMap fun q => q.1 ++ (mark ++ q.2) := by
      refine List.flatMap_congr fun q hq => ?_
      rw [inPlace, hall q hq]
    rw [decode_cut h, hsame, ← hjoin, String.ofList_toList]

theorem noSentinel_of_plain {s : String} (h : ¬mark <:+: s.toList) : NoSentinel s := by
  intro ps last hcut
  obtain ⟨rfl, rfl⟩ := cut_unique hcut (.last h)
  exact fun q hq => absurd hq List.not_mem_nil

end Ghajar.Npv
