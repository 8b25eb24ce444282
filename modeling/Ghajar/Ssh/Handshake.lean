import Mathlib
import Ghajar.Ssh.SplitPayload
import Ghajar.Ssh.WsConn

/-!
# The answers before the banner

`handshake` of `native/ghajar-helper/sshtransport.go`: the parts of a payload are written, and what
the far end answers in HTTP is read off before the stream is handed to SSH. The connection is a list
of what its reads come to, chunks of any size, a deadline that passes, an end; `bufio.Reader` is the
bytes that were read and not yet taken. `Block` is an answer, and `handed_over` says that blocks are
all that is ever taken off the stream.
-/

namespace Ghajar.Ssh

/-! ## The buffered reader -/

/-- What a read of the connection comes to. -/
inductive Read
  | data (bs : List UInt8)
  | timeout
  | closed
  deriving DecidableEq, Repr

def Read.bytes : Read → List UInt8
  | data bs => bs
  | _ => []

inductive ReadErr
  | timeout
  | closed
  deriving DecidableEq, Repr

/-- `bufio.Reader`: what it holds, and the reads to come. -/
structure Buffered where
  buf : List UInt8
  reads : List Read
  deriving DecidableEq, Repr

/-- Everything that is still to be read. -/
def Buffered.stream (r : Buffered) : List UInt8 := r.buf ++ r.reads.flatMap Read.bytes

/-- `Peek`: reads until there are `n` bytes; after an error there is what was read so far. -/
def peekFrom (n : Nat) (buf : List UInt8) : List Read → Option ReadErr × Buffered
  | [] => if n ≤ buf.length then (none, ⟨buf, []⟩) else (some .closed, ⟨buf, []⟩)
  | r :: reads =>
    if n ≤ buf.length then (none, ⟨buf, r :: reads⟩)
    else
      match r with
      | .data bs => peekFrom n (buf ++ bs) reads
      | .timeout => (some .timeout, ⟨buf, reads⟩)
      | .closed => (some .closed, ⟨buf, reads⟩)

def Buffered.peek (r : Buffered) (n : Nat) : Option ReadErr × Buffered := peekFrom n r.buf r.reads

/-- The first line of the bytes, with its line feed, and what is behind it. -/
def cutLine : List UInt8 → Option (List UInt8 × List UInt8)
  | [] => none
  | b :: bs => if b = 10 then some ([b], bs) else (cutLine bs).map fun p => (b :: p.1, p.2)

/-- `ReadString('\n')` -/
def readStringFrom (buf : List UInt8) : List Read → Except ReadErr (List UInt8 × Buffered)
  | [] =>
    match cutLine buf with
    | some (line, rest) => .ok (line, ⟨rest, []⟩)
    | none => .error .closed
  | r :: reads =>
    match cutLine buf with
    | some (line, rest) => .ok (line, ⟨rest, r :: reads⟩)
    | none =>
      match r with
      | .data bs => readStringFrom (buf ++ bs) reads
      | .timeout => .error .timeout
      | .closed => .error .closed

def Buffered.readString (r : Buffered) : Except ReadErr (List UInt8 × Buffered) :=
  readStringFrom r.buf r.reads

/-! ## The status -/

/-- The width of the white space that a text begins with, as `unicode.IsSpace` has it. -/
def spaceWidth : List UInt8 → Nat
  | 0xc2 :: 0x85 :: _ | 0xc2 :: 0xa0 :: _ => 2
  | 0xe1 :: 0x9a :: 0x80 :: _ | 0xe2 :: 0x81 :: 0x9f :: _ | 0xe3 :: 0x80 :: 0x80 :: _ => 3
  | 0xe2 :: 0x80 :: b :: _ =>
    if (0x80 ≤ b ∧ b ≤ 0x8a) ∨ b = 0xa8 ∨ b = 0xa9 ∨ b = 0xaf then 3 else 0
  | b :: _ => if (9 ≤ b ∧ b ≤ 13) ∨ b = 32 then 1 else 0
  | [] => 0

/-- The words of a text, `w` being the one that is read at the moment. -/
def fieldsN : Nat → List UInt8 → List UInt8 → List (List UInt8)
  | 0, w, _ | _ + 1, w, [] => if w = [] then [] else [w]
  | n + 1, w, b :: bs =>
    if spaceWidth (b :: bs) = 0 then fieldsN n (w ++ [b]) bs
    else (if w = [] then [] else [w]) ++ fieldsN n [] ((b :: bs).drop (spaceWidth (b :: bs)))

/-- `strings.Fields` -/
def fields (s : List UInt8) : List (List UInt8) := fieldsN (s.length + 1) [] s

def digits (ds : List UInt8) : Option Nat :=
  if ds ≠ [] ∧ ds.all fun d => 48 ≤ d ∧ d ≤ 57 then
    some (ds.foldl (fun n d => 10 * n + (d.toNat - 48)) 0)
  else none

/-- `strconv.Atoi`: what it returns beside an error is 0 or a bound of `int`. -/
def atoi (s : List UInt8) : Int :=
  let clamp (n : Int) : Int := max (-2 ^ 63) (min (2 ^ 63 - 1) n)
  match s with
  | 43 :: ds => clamp ((digits ds).getD 0)
  | 45 :: ds => clamp (-(digits ds).getD 0)
  | ds => clamp ((digits ds).getD 0)

def statusCode (status : List UInt8) : Int :=
  match fields status with
  | _ :: code :: _ => atoi code
  | _ => 0

/-- The stream is ours after it. -/
def final (code : Int) : Bool := code = 101 || (200 ≤ code && code < 300)

/-! ## The loop -/

def http : List UInt8 := [0x48, 0x54, 0x54, 0x50, 0x2f]

def blank (line : List UInt8) : Bool := line = [13, 10] || line = [10]

/-- The lines up to a blank one. A round takes a byte at least. -/
def skipHeaders : Nat → Buffered → Except ReadErr Buffered
  | 0, _ => .error .closed
  | n + 1, r =>
    match r.readString with
    | .error e => .error e
    | .ok (line, r) => if blank line then .ok r else skipHeaders n r

inductive OpenErr
  | payload
  | noAnswer
  | status
  | headers
  | closed
  /-- `websocket upgrade refused` -/
  | refused
  deriving DecidableEq, Repr

/-- The loop over the answers; `upgraded` is whether one of them switched protocols. -/
def skipBlocks : Nat → Bool → Buffered → Except OpenErr (Bool × Buffered)
  | 0, _, _ => .error .noAnswer
  | n + 1, upgraded, r =>
    match r.peek 5 with
    | (some _, _) => .error .noAnswer
    | (none, r) =>
      if r.buf.take 5 ≠ http then .ok (upgraded, r)
      else
        match r.readString with
        | .error _ => .error .status
        | .ok (status, r) =>
          match skipHeaders (r.stream.length + 1) r with
          | .error _ => .error .headers
          | .ok r =>
            let code := statusCode status
            let upgraded := upgraded || code = 101
            if final code then .ok (upgraded, r)
            else if r.buf = [] then
              match r.peek 1 with
              | (none, r) => skipBlocks n upgraded r
              | (some .timeout, r) => .ok (upgraded, r)
              | (some .closed, _) => .error .closed
            else skipBlocks n upgraded r

/-- What is handed over: the stream, in frames or not. -/
structure Opened where
  stream : Buffered
  framed : Bool
  deriving DecidableEq, Repr

/-- `handshake`, where the payload is split and `writes` says which write succeeds. -/
def handshake (writes : Nat → Bool) (parts : List PayloadPart) (framing : Bool)
    (reads : List Read) : Except OpenErr Opened :=
  let texts := (parts.map PayloadPart.text).filter (· ≠ [])
  if (List.range texts.length).all writes then
    let r : Buffered := ⟨[], reads⟩
    match skipBlocks (r.stream.length + 1) false r with
    | .error e => .error e
    | .ok (upgraded, r) =>
      if framing && !upgraded then .error .refused else .ok ⟨r, framing⟩
  else .error .payload

/-! ## Blocks -/

/-- A line without its end. -/
def Line (w : List UInt8) : Prop := (10 : UInt8) ∉ w

/-- An answer in HTTP: a status line, headers that are not blank, a blank line. -/
structure Block where
  status : List UInt8
  headers : List (List UInt8)
  blank : List UInt8
  head : http <+: status
  line : Line status
  headers_line : ∀ h ∈ headers, Line h ∧ h ≠ [] ∧ h ≠ [13]
  blank_line : blank = [] ∨ blank = [13]

namespace Block

def bytes (b : Block) : List UInt8 :=
  (b.status ++ [10]) ++ ((b.headers.flatMap fun h => h ++ [10]) ++ (b.blank ++ [10]))

def code (b : Block) : Int := statusCode (b.status ++ [10])

end Block

section Reading

variable {n : Nat} {buf line w rest : List UInt8} {reads : List Read} {r r' : Buffered}

theorem cutLine_some : cutLine buf = some (line, rest) ↔
    ∃ w, Line w ∧ line = w ++ [10] ∧ buf = line ++ rest := by
  induction buf generalizing line with
  | nil =>
    refine iff_of_false (fun h => by cases h) ?_
    rintro ⟨w, -, rfl, h⟩
    simp at h
  | cons b bs ih =>
    rw [cutLine]
    split
    · next hb =>
      subst hb
      constructor
      · rintro h
        cases h
        exact ⟨[], by simp [Line], rfl, rfl⟩
      · rintro ⟨w, hw, rfl, h⟩
        cases w with
        | nil =>
          cases h
          rfl
        | cons c w =>
          have hc : (10 : UInt8) = c := (List.cons.inj h).1
          exact absurd List.mem_cons_self (hc ▸ hw)
    · next hb =>
      constructor
      · intro h
        obtain ⟨⟨l, rs⟩, hl, he⟩ := Option.map_eq_some_iff.1 h
        cases he
        obtain ⟨w, hw, rfl, rfl⟩ := ih.1 hl
        refine ⟨b :: w, ?_, rfl, rfl⟩
        intro hm
        rcases List.mem_cons.1 hm with h | h
        · exact hb h.symm
        · exact hw h
      · rintro ⟨w, hw, rfl, h⟩
        cases w with
        | nil => exact absurd (List.cons.inj h).1 hb
        | cons c w =>
          obtain ⟨rfl, hbs⟩ := List.cons.inj h
          rw [ih.2 ⟨w, fun hm => hw (List.mem_cons_of_mem _ hm), rfl, hbs⟩]
          rfl

theorem cutLine_none : cutLine buf = none ↔ Line buf := by
  induction buf with
  | nil => simp [cutLine, Line]
  | cons b bs ih =>
    rw [cutLine]
    split
    · next hb => simp [Line, hb]
    · next hb =>
      rw [Option.map_eq_none_iff, ih, Line, Line, List.mem_cons, not_or]
      exact ⟨fun h => ⟨fun he => hb he.symm, h⟩, And.right⟩

/-- A peek takes nothing off the stream. -/
theorem peekFrom_stream {e : Option ReadErr} (h : peekFrom n buf reads = (e, r)) :
    r.stream = buf ++ reads.flatMap Read.bytes ∧ (e = none → n ≤ r.buf.length) ∧
      (e ≠ none → r.buf.length < n ∧ buf <+: r.buf) := by
  induction reads generalizing buf with
  | nil =>
    rw [peekFrom] at h
    split at h
    · next hn =>
      cases h
      exact ⟨rfl, fun _ => hn, fun hne => absurd rfl hne⟩
    · next hn =>
      cases h
      exact ⟨rfl, (fun he => by cases he), fun _ => ⟨Nat.lt_of_not_le hn, List.prefix_refl _⟩⟩
  | cons x reads ih =>
    rw [peekFrom.eq_def] at h
    dsimp only at h
    split at h
    · next hn =>
      cases h
      exact ⟨rfl, fun _ => hn, fun hne => absurd rfl hne⟩
    · next hn =>
      cases x with
      | data bs =>
        obtain ⟨hs, hok, herr⟩ := ih h
        refine ⟨by rw [hs, List.flatMap_cons, List.append_assoc, Read.bytes], hok, fun hne => ?_⟩
        exact ⟨(herr hne).1, (List.prefix_append _ _).trans (herr hne).2⟩
      | timeout =>
        cases h
        exact ⟨rfl, (fun he => by cases he), fun _ => ⟨Nat.lt_of_not_le hn, List.prefix_refl _⟩⟩
      | closed =>
        cases h
        exact ⟨rfl, (fun he => by cases he), fun _ => ⟨Nat.lt_of_not_le hn, List.prefix_refl _⟩⟩

theorem readStringFrom_ok (h : readStringFrom buf reads = .ok (line, r)) :
    ∃ w, Line w ∧ line = w ++ [10] ∧ buf ++ reads.flatMap Read.bytes = line ++ r.stream := by
  induction reads generalizing buf with
  | nil =>
    rw [readStringFrom] at h
    cases hc : cutLine buf with
    | none =>
      rw [hc] at h
      cases h
    | some p =>
      rw [hc] at h
      obtain ⟨l, rs⟩ := p
      cases h
      obtain ⟨w, hw, rfl, rfl⟩ := cutLine_some.1 hc
      exact ⟨w, hw, rfl, by simp [Buffered.stream]⟩
  | cons x reads ih =>
    rw [readStringFrom.eq_def] at h
    dsimp only at h
    cases hc : cutLine buf with
    | none =>
      rw [hc] at h
      cases x with
      | data bs =>
        obtain ⟨w, hw, hl, hs⟩ := ih h
        exact ⟨w, hw, hl, by rw [← hs, List.flatMap_cons, List.append_assoc, Read.bytes]⟩
      | timeout => cases h
      | closed => cases h
    | some p =>
      rw [hc] at h
      obtain ⟨l, rs⟩ := p
      cases h
      obtain ⟨w, hw, rfl, rfl⟩ := cutLine_some.1 hc
      exact ⟨w, hw, rfl, by simp [Buffered.stream, List.append_assoc]⟩

theorem readString_ok (h : r.readString = .ok (line, r')) :
    ∃ w, Line w ∧ line = w ++ [10] ∧ r.stream = line ++ r'.stream :=
  readStringFrom_ok h

theorem blank_iff (w : List UInt8) : blank (w ++ [10]) = true ↔ w = [] ∨ w = [13] := by
  unfold blank
  rw [Bool.or_eq_true, decide_eq_true_eq, decide_eq_true_eq]
  constructor
  · rintro (h | h)
    · exact .inr (List.append_cancel_right (h : w ++ [10] = [13] ++ [10]))
    · exact .inl (List.append_cancel_right (h : w ++ [10] = [] ++ [10]))
  · rintro (rfl | rfl)
    · exact .inr rfl
    · exact .inl rfl

theorem skipHeaders_ok (h : skipHeaders n r = .ok r') :
    ∃ (headers : List (List UInt8)) (last : List UInt8),
      (∀ h ∈ headers, Line h ∧ h ≠ [] ∧ h ≠ [13]) ∧ (last = [] ∨ last = [13]) ∧
      r.stream = (headers.flatMap fun h => h ++ [10]) ++ (last ++ [10]) ++ r'.stream := by
  induction n generalizing r with
  | zero => cases h
  | succ n ih =>
    rw [skipHeaders] at h
    cases hl : r.readString with
    | error e =>
      rw [hl] at h
      cases h
    | ok p =>
      obtain ⟨line, s⟩ := p
      rw [hl] at h
      dsimp only at h
      obtain ⟨w, hw, rfl, hs⟩ := readString_ok hl
      split at h
      · next hb =>
        cases h
        exact ⟨[], w, by simp, (blank_iff w).1 hb, by simpa using hs⟩
      · next hb =>
        obtain ⟨headers, last, hh, hlast, hrest⟩ := ih h
        rw [blank_iff, not_or] at hb
        refine ⟨w :: headers, last, List.forall_mem_cons.2 ⟨⟨hw, hb⟩, hh⟩, hlast, ?_⟩
        rw [hs, hrest]
        simp only [List.flatMap_cons, List.append_assoc]

theorem line_http : Line http := by
  unfold Line
  decide

theorem prefix_line {p : List UInt8} (hp : Line p) (h : p <+: w ++ 10 :: rest) : p <+: w := by
  induction p generalizing w with
  | nil => exact List.nil_prefix
  | cons b p ih =>
    have hb : b ≠ 10 := fun he => hp (he ▸ List.mem_cons_self)
    cases w with
    | nil => exact absurd (List.cons_prefix_cons.1 h).1 hb
    | cons c w =>
      obtain ⟨rfl, htail⟩ := List.cons_prefix_cons.1 h
      exact List.cons_prefix_cons.2 ⟨rfl, ih (fun hm => hp (List.mem_cons_of_mem _ hm)) htail⟩

theorem line_unique {v : List UInt8} {rest' : List UInt8} (hv : Line v) (hw : Line w)
    (h : v ++ 10 :: rest = w ++ 10 :: rest') : v = w ∧ rest = rest' := by
  have hp : v <+: w := prefix_line hv (h ▸ List.prefix_append _ _)
  have hp' : w <+: v := prefix_line hw (h.symm ▸ List.prefix_append _ _)
  obtain rfl := hp.eq_of_length (Nat.le_antisymm hp.length_le hp'.length_le)
  exact ⟨rfl, (List.cons.inj (List.append_cancel_left h)).2⟩

theorem http_iff (h : 5 ≤ r.buf.length) : r.buf.take 5 = http ↔ http <+: r.stream := by
  have htake : r.buf.take 5 = r.stream.take 5 := by
    rw [Buffered.stream, List.take_append_of_le_length h]
  rw [htake, List.prefix_iff_eq_take]
  exact eq_comm

/-- Why no more is taken off: the last block was final, what follows is no answer, or nothing came
before the deadline. -/
def Stopped (blocks : List Block) (r : Buffered) : Prop :=
  (∃ b, blocks.getLast? = some b ∧ final b.code = true) ∨
    (5 ≤ r.buf.length ∧ ¬http <+: r.stream) ∨ (r.buf = [] ∧ blocks ≠ [])

theorem Stopped.cons {blocks : List Block} {b : Block} (h : Stopped blocks r) :
    Stopped (b :: blocks) r := by
  rcases h with ⟨c, hc, hf⟩ | h | ⟨h, -⟩
  · refine .inl ⟨c, ?_, hf⟩
    cases blocks with
    | nil => cases hc
    | cons d ds => rwa [List.getLast?_cons_cons]
  · exact .inr (.inl h)
  · exact .inr (.inr ⟨h, List.cons_ne_nil _ _⟩)

theorem dropLast_cons_final {blocks : List Block} {b : Block} (hb : final b.code = false)
    (h : ∀ b ∈ blocks.dropLast, final b.code = false) :
    ∀ c ∈ (b :: blocks).dropLast, final c.code = false := by
  cases blocks with
  | nil => simp
  | cons d ds =>
    rw [List.dropLast_cons_of_ne_nil (List.cons_ne_nil d ds)]
    exact List.forall_mem_cons.2 ⟨hb, h⟩

/-- What a run of the loop has taken off. -/
structure Taken (upgraded : Bool) (r : Buffered) (upgraded' : Bool) (r' : Buffered)
    (blocks : List Block) : Prop where
  stream : r.stream = blocks.flatMap Block.bytes ++ r'.stream
  upgraded : upgraded' = (upgraded || blocks.any fun b => b.code = 101)
  first : ∀ b ∈ blocks.dropLast, final b.code = false
  stopped : Stopped blocks r'

theorem Taken.cons {blocks : List Block} {b : Block} {s : Buffered} {u u' : Bool}
    (h : Taken (u || b.code = 101) s u' r' blocks) (hs : r.stream = b.bytes ++ s.stream)
    (hb : final b.code = false) : Taken u r u' r' (b :: blocks) where
  stream := by rw [hs, h.stream, List.flatMap_cons, List.append_assoc]
  upgraded := by rw [h.upgraded, List.any_cons, Bool.or_assoc]
  first := dropLast_cons_final hb h.first
  stopped := h.stopped.cons

theorem taken_one {b : Block} {u : Bool} (hs : r.stream = b.bytes ++ r'.stream)
    (h : Stopped [b] r') : Taken u r (u || b.code = 101) r' [b] where
  stream := by simpa using hs
  upgraded := by simp
  first := by simp
  stopped := h

theorem skipBlocks_ok {u u' : Bool} (h : skipBlocks n u r = .ok (u', r')) :
    ∃ blocks, Taken u r u' r' blocks := by
  induction n generalizing r u with
  | zero => cases h
  | succ n ih =>
    rw [skipBlocks] at h
    cases hp : r.peek 5 with
    | mk e s =>
      rw [hp] at h
      obtain ⟨hstream, hfull, -⟩ := peekFrom_stream hp
      replace hstream : s.stream = r.stream := hstream
      cases e with
      | some e => cases h
      | none =>
        dsimp only at h
        have hlen := hfull rfl
        split at h
        · next hhttp =>
          cases h
          rw [ne_eq, http_iff hlen] at hhttp
          exact ⟨[], by rw [hstream]; rfl, by simp, by simp, .inr (.inl ⟨hlen, hhttp⟩)⟩
        · next hhttp =>
          rw [ne_eq, not_not, http_iff hlen] at hhttp
          cases hl : s.readString with
          | error e =>
            rw [hl] at h
            cases h
          | ok p =>
            obtain ⟨status, t⟩ := p
            rw [hl] at h
            dsimp only at h
            obtain ⟨w, hw, rfl, hs⟩ := readString_ok hl
            cases hh : skipHeaders (t.stream.length + 1) t with
            | error e =>
              rw [hh] at h
              cases h
            | ok v =>
              rw [hh] at h
              dsimp only at h
              obtain ⟨headers, last, hlines, hlast, hv⟩ := skipHeaders_ok hh
              have hhead : http <+: w := prefix_line line_http (by
                rw [hs, List.append_assoc] at hhttp
                exact hhttp)
              let b : Block := ⟨w, headers, last, hhead, hw, hlines, hlast⟩
              have hb : r.stream = b.bytes ++ v.stream := by
                rw [← hstream, hs, hv, Block.bytes]
                simp only [List.append_assoc]
                rfl
              change (if final b.code = true then _ else if v.buf = [] then _ else _) = _ at h
              split at h
              · next hfinal =>
                cases h
                exact ⟨[b], taken_one hb (.inl ⟨b, rfl, hfinal⟩)⟩
              · next hfinal =>
                rw [Bool.not_eq_true] at hfinal
                split at h
                · next hempty =>
                  cases hq : v.peek 1 with
                  | mk e x =>
                    rw [hq] at h
                    obtain ⟨hx, -, herr⟩ := peekFrom_stream hq
                    replace hx : x.stream = v.stream := hx
                    cases e with
                    | none =>
                      obtain ⟨blocks, ht⟩ := ih h
                      exact ⟨b :: blocks, ht.cons (by rw [hx, hb]) hfinal⟩
                    | some e =>
                      cases e with
                      | closed => cases h
                      | timeout =>
                        cases h
                        have hnil : r'.buf = [] := List.eq_nil_of_length_eq_zero
                          (Nat.lt_one_iff.1 (herr (by simp)).1)
                        have hr : r.stream = b.bytes ++ r'.stream := by rw [hx, hb]
                        exact ⟨[b], taken_one hr (.inr (.inr ⟨hnil, by simp⟩))⟩
                · obtain ⟨blocks, ht⟩ := ih h
                  exact ⟨b :: blocks, ht.cons hb hfinal⟩

end Reading

/-! ## A far end that answers in time -/

/-- No deadline passes, and the far end stays. -/
def InTime (reads : List Read) : Prop := ∀ x ∈ reads, ∃ bs, x = .data bs

section InTime

variable {n : Nat} {buf w rest : List UInt8} {reads : List Read} {r : Buffered}

theorem peekFrom_some (hr : InTime reads) (hn : n ≤ (buf ++ reads.flatMap Read.bytes).length) :
    ∃ r, peekFrom n buf reads = (none, r) ∧ InTime r.reads := by
  induction reads generalizing buf with
  | nil =>
    rw [List.flatMap_nil, List.append_nil] at hn
    exact ⟨⟨buf, []⟩, by rw [peekFrom, if_pos hn], hr⟩
  | cons x reads ih =>
    obtain ⟨bs, rfl⟩ := hr x List.mem_cons_self
    rw [peekFrom.eq_def]
    dsimp only
    split
    · exact ⟨_, rfl, hr⟩
    · refine ih (fun y hy => hr y (List.mem_cons_of_mem _ hy)) ?_
      rwa [List.append_assoc]

theorem readStringFrom_some (hr : InTime reads) (hw : Line w)
    (hs : buf ++ reads.flatMap Read.bytes = w ++ 10 :: rest) :
    ∃ r, readStringFrom buf reads = .ok (w ++ [10], r) ∧ r.stream = rest ∧ InTime r.reads := by
  have hcut : ∀ {buf : List UInt8} {reads : List Read},
      buf ++ reads.flatMap Read.bytes = w ++ 10 :: rest → ¬Line buf →
      ∃ rs, cutLine buf = some (w ++ [10], rs) ∧ rs ++ reads.flatMap Read.bytes = rest := by
    intro buf reads hs hl
    cases hc : cutLine buf with
    | none => exact absurd (cutLine_none.1 hc) hl
    | some p =>
      obtain ⟨l, rs⟩ := p
      obtain ⟨v, hv, rfl, rfl⟩ := cutLine_some.1 hc
      have hsame : v ++ 10 :: (rs ++ reads.flatMap Read.bytes) = w ++ 10 :: rest := by
        rw [← hs]
        simp
      obtain ⟨rfl, htail⟩ := line_unique hv hw hsame
      exact ⟨rs, rfl, htail⟩
  induction reads generalizing buf with
  | nil =>
    rw [List.flatMap_nil, List.append_nil] at hs
    obtain ⟨rs, hc, hrest⟩ := @hcut buf [] (by simpa using hs) (by simp [hs, Line])
    exact ⟨⟨rs, []⟩, by rw [readStringFrom, hc], hrest, hr⟩
  | cons x reads ih =>
    obtain ⟨bs, rfl⟩ := hr x List.mem_cons_self
    rw [readStringFrom.eq_def]
    dsimp only
    by_cases hl : Line buf
    · rw [cutLine_none.2 hl]
      refine ih (fun y hy => hr y (List.mem_cons_of_mem _ hy)) ?_
      rw [← hs, List.append_assoc]
      rfl
    · obtain ⟨rs, hc, hrest⟩ := hcut hs hl
      rw [hc]
      exact ⟨_, rfl, hrest, hr⟩

theorem readString_some (hr : InTime r.reads) (hw : Line w) (hs : r.stream = w ++ 10 :: rest) :
    ∃ r', r.readString = .ok (w ++ [10], r') ∧ r'.stream = rest ∧ InTime r'.reads :=
  readStringFrom_some hr hw hs

theorem skipHeaders_some {headers : List (List UInt8)} {last : List UInt8}
    (hh : ∀ h ∈ headers, Line h ∧ h ≠ [] ∧ h ≠ [13]) (hlast : last = [] ∨ last = [13])
    (hr : InTime r.reads)
    (hs : r.stream = (headers.flatMap fun h => h ++ [10]) ++ (last ++ 10 :: rest))
    (hn : headers.length < n) :
    ∃ r', skipHeaders n r = .ok r' ∧ r'.stream = rest ∧ InTime r'.reads := by
  induction headers generalizing r n with
  | nil =>
    obtain ⟨m, rfl⟩ := Nat.exists_eq_succ_of_ne_zero (Nat.ne_of_gt hn)
    have hl : Line last := by
      rcases hlast with rfl | rfl
      · simp [Line]
      · simp [Line]
    obtain ⟨r', hread, hrest, hr'⟩ := readString_some hr hl hs
    refine ⟨r', ?_, hrest, hr'⟩
    rw [skipHeaders, hread]
    exact if_pos ((blank_iff last).2 hlast)
  | cons h hs' ih =>
    obtain ⟨m, rfl⟩ := Nat.exists_eq_succ_of_ne_zero (Nat.ne_zero_of_lt hn)
    obtain ⟨hh0, hh⟩ := List.forall_mem_cons.1 hh
    rw [List.flatMap_cons, List.append_assoc, List.append_assoc] at hs
    obtain ⟨s, hread, hrest, hr'⟩ := readString_some hr hh0.1 hs
    obtain ⟨r', hskip, hstream, hin⟩ := ih hh hr' hrest (Nat.lt_of_succ_lt_succ hn)
    refine ⟨r', ?_, hstream, hin⟩
    rw [skipHeaders, hread]
    have hb : blank (h ++ [10]) ≠ true := by
      rw [ne_eq, blank_iff, not_or]
      exact hh0.2
    exact (if_neg hb).trans hskip

theorem Block.tail_length (b : Block) (t : List UInt8) :
    b.headers.length ≤
      ((b.headers.flatMap fun h => h ++ [10]) ++ (b.blank ++ 10 :: t)).length := by
  have hsum : ∀ hs : List (List UInt8), hs.length ≤ (hs.flatMap fun h => h ++ [10]).length := by
    intro hs
    induction hs with
    | nil => rfl
    | cons h hs ih =>
      simp only [List.flatMap_cons, List.length_append, List.length_cons, List.length_nil]
      omega
  rw [List.length_append]
  exact Nat.le_add_right_of_le (hsum _)

/-- A stream where the loop stops: behind a final block, or in front of what is no answer. -/
def Stops (blocks : List Block) (rest : List UInt8) : Prop :=
  (∃ b, blocks.getLast? = some b ∧ final b.code = true) ∨ (5 ≤ rest.length ∧ ¬http <+: rest)

theorem skipBlocks_some {blocks : List Block} {u : Bool} (hr : InTime r.reads)
    (hs : r.stream = blocks.flatMap Block.bytes ++ rest)
    (hfirst : ∀ b ∈ blocks.dropLast, final b.code = false) (hstop : Stops blocks rest)
    (hn : r.stream.length < n) :
    ∃ r', skipBlocks n u r = .ok (u || blocks.any fun b => b.code = 101, r') ∧
      r'.stream = rest := by
  induction blocks generalizing r n u with
  | nil =>
    obtain ⟨m, rfl⟩ := Nat.exists_eq_succ_of_ne_zero (Nat.ne_zero_of_lt hn)
    rw [List.flatMap_nil, List.nil_append] at hs
    obtain ⟨hlen, hhttp⟩ := hstop.resolve_left fun ⟨b, hb, _⟩ => by cases hb
    obtain ⟨s, hp, -⟩ := peekFrom_some hr (hs ▸ hlen : 5 ≤ r.stream.length)
    obtain ⟨hstream, hfull, -⟩ := peekFrom_stream hp
    replace hp : r.peek 5 = (none, s) := hp
    have hsame : s.stream = rest := hstream.trans hs
    refine ⟨s, ?_, hsame⟩
    rw [skipBlocks, hp, List.any_nil, Bool.or_false]
    refine if_pos ?_
    rw [ne_eq, http_iff (hfull rfl), hsame]
    exact hhttp
  | cons b blocks ih =>
    obtain ⟨m, rfl⟩ := Nat.exists_eq_succ_of_ne_zero (Nat.ne_zero_of_lt hn)
    have hcat : r.stream = b.status ++ 10 :: ((b.headers.flatMap fun h => h ++ [10]) ++
        (b.blank ++ 10 :: (blocks.flatMap Block.bytes ++ rest))) := by
      rw [hs, List.flatMap_cons, Block.bytes]
      simp only [List.append_assoc, List.cons_append, List.nil_append]
    have hhead : http <+: r.stream := by
      rw [hcat]
      exact b.head.trans (List.prefix_append _ _)
    obtain ⟨s, hp, hin⟩ := peekFrom_some hr (hhead.length_le : 5 ≤ r.stream.length)
    obtain ⟨hstream, hfull, -⟩ := peekFrom_stream hp
    replace hp : r.peek 5 = (none, s) := hp
    have hsame : s.stream = r.stream := hstream
    obtain ⟨t, hread, ht, hint⟩ := readString_some hin b.line (hsame.trans hcat)
    obtain ⟨v, hskip, hv, hinv⟩ := skipHeaders_some b.headers_line b.blank_line hint ht
      (n := t.stream.length + 1) (by
        rw [ht]
        exact Nat.lt_succ_of_le (b.tail_length _))
    have hhttp : ¬s.buf.take 5 ≠ http := by
      rw [not_not, http_iff (hfull rfl), hsame]
      exact hhead
    have hstep : skipBlocks (m + 1) u r =
        if final b.code = true then .ok (u || b.code = 101, v)
        else if v.buf = [] then
          match v.peek 1 with
          | (none, r) => skipBlocks m (u || b.code = 101) r
          | (some .timeout, r) => .ok (u || b.code = 101, r)
          | (some .closed, _) => .error .closed
        else skipBlocks m (u || b.code = 101) v := by
      rw [skipBlocks, hp]
      dsimp only
      rw [if_neg hhttp, hread]
      dsimp only
      rw [hskip]
      rfl
    have hlt : v.stream.length < m := by
      have hlen := congrArg List.length hcat
      have hvlen := congrArg List.length hv
      simp only [List.length_append, List.length_cons] at hlen hvlen
      omega
    rw [hstep, List.any_cons, ← Bool.or_assoc]
    by_cases hf : final b.code = true
    · have hnil : blocks = [] := by
        by_contra hne
        refine absurd hf (ne_true_of_eq_false (hfirst b ?_))
        rw [List.dropLast_cons_of_ne_nil hne]
        exact List.mem_cons_self
      subst hnil
      exact ⟨v, by rw [if_pos hf]; simp, by simpa using hv⟩
    · have hstop' : Stops blocks rest := by
        rcases hstop with ⟨c, hc, hcf⟩ | h
        · cases blocks with
          | nil =>
            cases hc
            exact absurd hcf hf
          | cons d ds => exact .inl ⟨c, by rwa [List.getLast?_cons_cons] at hc, hcf⟩
        · exact .inr h
      have hfirst' : ∀ c ∈ blocks.dropLast, final c.code = false := by
        intro c hc
        refine hfirst c ?_
        cases blocks with
        | nil => cases hc
        | cons d ds =>
          rw [List.dropLast_cons_of_ne_nil (List.cons_ne_nil d ds)]
          exact List.mem_cons_of_mem _ hc
      have hpos : 1 ≤ v.stream.length := by
        rw [hv]
        rcases hstop' with ⟨c, hc, -⟩ | ⟨hlen, -⟩
        · cases blocks with
          | nil => cases hc
          | cons d ds =>
            rw [List.flatMap_cons, Block.bytes]
            simp only [List.length_append, List.length_cons]
            omega
        · rw [List.length_append]
          omega
      rw [if_neg hf]
      split
      · obtain ⟨x, hx, hinx⟩ := peekFrom_some hinv hpos
        obtain ⟨hxs, -, -⟩ := peekFrom_stream hx
        replace hx : v.peek 1 = (none, x) := hx
        replace hxs : x.stream = v.stream := hxs
        rw [hx]
        exact ih hinx (hxs.trans hv) hfirst' hstop' (by rw [hxs]; exact hlt)
      · exact ih hinv hv hfirst' hstop' hlt

end InTime

/-! ## The whole handshake -/

section Handshake

variable {writes : Nat → Bool} {parts : List PayloadPart} {framing : Bool} {reads : List Read}
  {o : Opened} {blocks : List Block} {rest : List UInt8}

theorem handshake_ok (h : handshake writes parts framing reads = .ok o) :
    o.framed = framing ∧ ∃ u blocks, Taken false ⟨[], reads⟩ u o.stream blocks ∧
      (framing = true → u = true) := by
  unfold handshake at h
  dsimp only at h
  split at h
  · split at h
    · cases h
    · next u r hb =>
      obtain ⟨blocks, ht⟩ := skipBlocks_ok hb
      split at h
      · cases h
      · next hf =>
        cases h
        refine ⟨rfl, u, blocks, ht, fun hframing => ?_⟩
        rw [hframing] at hf
        simpa using hf
  · cases h

theorem handshake_some (hw : ∀ i, writes i = true) (hr : InTime reads)
    (hs : reads.flatMap Read.bytes = blocks.flatMap Block.bytes ++ rest)
    (hfirst : ∀ b ∈ blocks.dropLast, final b.code = false) (hstop : Stops blocks rest)
    (hf : framing = true → ∃ b ∈ blocks, b.code = 101) :
    ∃ o, handshake writes parts framing reads = .ok o ∧ o.stream.stream = rest ∧
      o.framed = framing := by
  obtain ⟨r, hb, hrest⟩ := @skipBlocks_some _ rest ⟨[], reads⟩ blocks false hr hs hfirst hstop
    (Nat.lt_succ_self _)
  refine ⟨⟨r, framing⟩, ?_, hrest, rfl⟩
  unfold handshake
  dsimp only
  rw [if_pos (by simp [hw]), hb]
  dsimp only
  refine if_neg ?_
  rw [Bool.and_eq_true, not_and, Bool.not_eq_true', Bool.false_or, Bool.not_eq_false,
    List.any_eq_true]
  exact fun h => (hf h).imp fun b hb => ⟨hb.1, by simpa using hb.2⟩

/-- **No byte of the stream is lost.** What is handed over is what the far end sends without the
answers in front of it: only whole blocks are taken off, whatever the sizes of the reads and the
deadlines that pass, and none behind a final one; frames are used only after an upgrade. And from a
far end that answers in time all of its answers are taken off. -/
theorem handed_over (writes : Nat → Bool) (parts : List PayloadPart) (framing : Bool)
    (reads : List Read) :
    (∀ o, handshake writes parts framing reads = .ok o → o.framed = framing ∧
      ∃ blocks : List Block,
        reads.flatMap Read.bytes = blocks.flatMap Block.bytes ++ o.stream.stream ∧
        (∀ b ∈ blocks.dropLast, final b.code = false) ∧ Stopped blocks o.stream ∧
        (framing = true → ∃ b ∈ blocks, b.code = 101)) ∧
    (∀ (blocks : List Block) (rest : List UInt8), (∀ i, writes i = true) → InTime reads →
      reads.flatMap Read.bytes = blocks.flatMap Block.bytes ++ rest →
      (∀ b ∈ blocks.dropLast, final b.code = false) → Stops blocks rest →
      (framing = true → ∃ b ∈ blocks, b.code = 101) →
      ∃ o, handshake writes parts framing reads = .ok o ∧ o.stream.stream = rest ∧
        o.framed = framing) := by
  constructor
  · intro o h
    obtain ⟨hframed, u, blocks, ht, hu⟩ := handshake_ok h
    refine ⟨hframed, blocks, ?_, ht.first, ht.stopped, fun hf => ?_⟩
    · have hs := ht.stream
      rwa [Buffered.stream, List.nil_append] at hs
    · have hany := ht.upgraded
      rw [hu hf, Bool.false_or] at hany
      obtain ⟨b, hb, hc⟩ := List.any_eq_true.1 hany.symm
      exact ⟨b, hb, by simpa using hc⟩
  · intro blocks rest hw hr hs hfirst hstop hf
    exact handshake_some hw hr hs hfirst hstop hf

end Handshake

end Ghajar.Ssh
