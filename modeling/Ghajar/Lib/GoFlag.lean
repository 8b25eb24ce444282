import Mathlib

/-!
# Flags of a command line

`flag.FlagSet.Parse`. A flag begins with one or two dashes; its value stands behind `=` or is the
next argument, whatever that looks like. `parse_render` reads back the flags of a command line.
-/

namespace GoFlag

inductive Kind where
  | text
  | whole
  | switch
  deriving DecidableEq

/-- An argument as it is looked at first. -/
inductive Word where
  | flag (name : List Char) (value : Option (List Char))
  /-- The flags end here. -/
  | stop
  | bad

/-- What stands behind the dashes. -/
def named : List Char → Word
  | [] => .bad
  | c :: cs =>
    if c = '-' ∨ c = '=' then .bad
    else .flag (c :: cs.takeWhile (· ≠ '='))
      (if '=' ∈ cs then some (cs.dropWhile (· ≠ '=')).tail else none)

def word : List Char → Word
  | ['-', '-'] => .stop
  | '-' :: '-' :: name => named name
  | '-' :: c :: name => named (c :: name)
  | _ => .stop

def number (cs : List Char) : Bool :=
  cs ≠ [] ∧ cs.all Char.isDigit ∧ Nat.ofDigitChars 10 cs 0 < 2 ^ 63

/-- The values a flag takes; of the numbers, the decimal ones. -/
def accepts : Kind → List Char → Bool
  | .text, _ => true
  | .whole, '-' :: cs => number cs
  | .whole, cs => number cs
  | .switch, cs => String.ofList cs ∈
    ["1", "t", "T", "true", "TRUE", "True", "0", "f", "F", "false", "FALSE", "False"]

/-- What is set, in order; `none` where the parser gives up. -/
def parse (formal : List (String × Kind)) : List String → Option (List (String × String))
  | [] => some []
  | s :: args =>
    match word s.toList with
    | .stop => some []
    | .bad => none
    | .flag name value =>
      let set (kind : Kind) (value : List Char) (rest : Option (List (String × String))) :=
        if accepts kind value then
          rest.map fun l => (String.ofList name, String.ofList value) :: l else none
      match formal.lookup (String.ofList name), value, args with
      | none, _, _ => none
      | some kind, some value, args => set kind value (parse formal args)
      | some .switch, none, args => set .switch "true".toList (parse formal args)
      | some _, none, [] => none
      | some kind, none, value :: args => set kind value.toList (parse formal args)

/-- What a flag was set to last. -/
def get (l : List (String × String)) (name : String) (fallback : String) : String :=
  (l.reverse.lookup name).getD fallback

/-- A flag as it is written: with its value behind it, or alone. -/
def render (f : String × Option String) : List String := ("-" ++ f.1) :: f.2.toList

/-- What the flag is set to. -/
def setting (f : String × Option String) : String × String := (f.1, f.2.getD "true")

/-- The flag is one of the set, and its value one that it takes. -/
def Fits (formal : List (String × Kind)) (f : String × Option String) : Prop :=
  (∃ c cs, f.1.toList = c :: cs ∧ c ≠ '-' ∧ '=' ∉ f.1.toList) ∧
    match f.2 with
    | none => formal.lookup f.1 = some .switch
    | some v => ∃ kind ≠ .switch, formal.lookup f.1 = some kind ∧ accepts kind v.toList

theorem word_render {name : String} {c : Char} {cs : List Char} (h : name.toList = c :: cs)
    (hc : c ≠ '-') (he : '=' ∉ name.toList) :
    word ("-" ++ name).toList = .flag name.toList none := by
  rw [h, List.mem_cons, not_or] at he
  have hall : cs.takeWhile (· ≠ '=') = cs := by
    refine List.takeWhile_eq_self_iff.2 fun d hd => decide_eq_true ?_
    rintro rfl
    exact he.2 hd
  rw [String.toList_append, h]
  change word ('-' :: c :: cs) = _
  have hword : word ('-' :: c :: cs) = named (c :: cs) := by
    unfold word
    split
    · rename_i heq
      simp_all
    · rename_i heq
      simp_all
    · rename_i heq
      simp_all
    · rename_i hno
      exact absurd rfl (hno c cs)
  rw [hword, named, if_neg (by simp [hc, Ne.symm he.1]), hall, if_neg he.2]

/-- A command line of flags that fit sets each of them. -/
theorem parse_render {formal : List (String × Kind)} {l : List (String × Option String)}
    (h : ∀ f ∈ l, Fits formal f) :
    parse formal (l.flatMap render) = some (l.map setting) := by
  induction l with
  | nil => rfl
  | cons f l ih =>
    have ih := ih fun g hg => h g (.tail _ hg)
    obtain ⟨⟨c, cs, hname, hc, he⟩, hv⟩ := h f (.head _)
    obtain ⟨name, value⟩ := f
    cases value with
    | none =>
      change parse formal (("-" ++ name) :: l.flatMap render) = _
      rw [parse, word_render hname hc he]
      have hlookup : formal.lookup name = some .switch := hv
      simp only [String.ofList_toList, hlookup, ih]
      rfl
    | some v =>
      obtain ⟨kind, hk, hlookup, haccepts⟩ := hv
      change parse formal (("-" ++ name) :: v :: l.flatMap render) = _
      rw [parse, word_render hname hc he]
      have hlookup : formal.lookup name = some kind := hlookup
      have haccepts : accepts kind v.toList = true := haccepts
      simp only [String.ofList_toList, hlookup]
      cases kind with
      | switch => exact absurd rfl hk
      | text =>
        simp only [haccepts, ih, if_true]
        rfl
      | whole =>
        simp only [haccepts, ih, if_true]
        rfl

/-- A flag that is set once has that value. -/
theorem get_of_once {pre post : List (String × String)} {name value fallback : String}
    (h : ∀ f ∈ post, f.1 ≠ name) : get (pre ++ (name, value) :: post) name fallback = value := by
  have hnone : post.reverse.lookup name = none := by
    refine List.lookup_eq_none_iff.2 fun f hf => ?_
    simpa using (h f (List.mem_reverse.1 hf)).symm
  simp [get, List.reverse_append, List.lookup_append, hnone]

theorem number_toString {n : ℕ} (h : n < 2 ^ 63) : number (toString n).toList = true := by
  have hdigits : (toString n).toList = Nat.toDigits 10 n := Nat.toList_repr
  rw [hdigits, number]
  refine decide_eq_true ⟨Nat.toDigits_ne_nil, ?_, ?_⟩
  · exact List.all_eq_true.2 fun c hc => Nat.isDigit_of_mem_toDigits (by decide) (by decide) hc
  · rwa [Nat.ofDigitChars_ten_toDigits]

theorem accepts_toString {n : ℕ} (h : n < 2 ^ 63) :
    accepts .whole (toString n).toList = true := by
  have hn := number_toString h
  unfold accepts
  split
  · rfl
  · rename_i cs heq
    rw [heq] at hn
    simp [number] at hn
  · exact hn
  · rename_i heq
    cases heq

end GoFlag
