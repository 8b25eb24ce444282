import Mathlib
import Ghajar.Ppp.Scan
import Ghajar.Ppp.Step

/-!
# Options, and what a Configure-Request is answered

`parseOpts` accepts exactly the concatenations of options (`Concatenation`), and `packOpts` writes
back what it read. `lcpAnswer` and `ipcpAnswer` say what a request has coming, from its options
alone: the unsupported ones are rejected, then a method that is not wanted is naked, and what is
left is acknowledged as it came. `configure_answered` says that the negotiation answers so in
every state that a run reaches.
-/

namespace Ghajar.Ppp

open Reactive

/-! ## The options of a packet -/

/-- Options one behind the other, each as long as its length byte says. -/
inductive Concatenation : Bytes → Prop where
  | nil : Concatenation []
  | cons (t l : UInt8) {v rest : Bytes} (hl : 2 ≤ l.toNat) (hv : v.length = l.toNat - 2)
      (hrest : Concatenation rest) : Concatenation (t :: l :: (v ++ rest))

theorem parseOptsN_pack {n : Nat} {b : Bytes} {opts : List PppOpt}
    (h : parseOptsN n b = some opts) :
    packOpts opts = b ∧ Concatenation b ∧ ∀ x ∈ opts, x.v.length ≤ 253 := by
  induction n generalizing b opts with
  | zero =>
    cases b with
    | nil =>
      obtain rfl := Option.some.inj h
      exact ⟨rfl, .nil, fun x hx => absurd hx List.not_mem_nil⟩
    | cons x xs => cases h
  | succ n ih =>
    match b with
    | [] =>
      obtain rfl := Option.some.inj h
      exact ⟨rfl, .nil, fun x hx => absurd hx List.not_mem_nil⟩
    | [_] => cases h
    | t :: l :: rest =>
      rw [parseOptsN] at h
      split at h
      · cases h
      · rename_i hl
        simp only [not_or, Nat.not_lt] at hl
        obtain ⟨opts', hopts, rfl⟩ := Option.map_eq_some_iff.1 h
        obtain ⟨hpack, hcat, hlen⟩ := ih hopts
        have htake : (rest.take (l.toNat - 2)).length = l.toNat - 2 := by
          rw [List.length_take]
          omega
        have hsplit := List.take_append_drop (l.toNat - 2) rest
        refine ⟨?_, ?_, fun x hx => ?_⟩
        · have hbyte : UInt8.ofNat (2 + (rest.take (l.toNat - 2)).length) = l := by
            rw [htake, Nat.add_sub_cancel' hl.1, UInt8.ofNat_toNat]
          rw [packOpts, List.flatMap_cons, hbyte, ← packOpts, hpack, List.cons_append,
            List.cons_append, hsplit]
        · have h := Concatenation.cons t l hl.1 htake hcat
          rwa [hsplit] at h
        · rcases List.mem_cons.1 hx with rfl | hx
          · have hb := l.toNat_lt
            rw [htake]
            omega
          · exact hlen x hx

theorem parseOptsN_of {b : Bytes} (h : Concatenation b) {n : Nat} (hn : b.length ≤ n) :
    ∃ opts, parseOptsN n b = some opts := by
  induction h generalizing n with
  | nil => exact ⟨[], by cases n <;> rfl⟩
  | @cons t l v rest hl hv _ ih =>
    simp only [List.length_cons, List.length_append] at hn
    obtain ⟨m, rfl⟩ := Nat.exists_eq_add_of_lt (show 0 < n by omega)
    obtain ⟨opts, hopts⟩ := @ih (0 + m) (by omega)
    refine ⟨⟨t, v⟩ :: opts, ?_⟩
    rw [parseOptsN, if_neg (by rw [List.length_append]; omega), ← hv, List.drop_left,
      List.take_left, hopts, Option.map_some]

/-- **What `parseOpts` accepts**, and it loses nothing. -/
theorem parseOpts_isSome_iff {b : Bytes} : (parseOpts b).isSome ↔ Concatenation b := by
  constructor
  · intro h
    obtain ⟨opts, hopts⟩ := Option.isSome_iff_exists.1 h
    exact (parseOptsN_pack hopts).2.1
  · intro h
    obtain ⟨opts, hopts⟩ := parseOptsN_of h (Nat.le_refl _)
    exact Option.isSome_iff_exists.2 ⟨opts, hopts⟩

theorem pack_parseOpts {b : Bytes} {opts : List PppOpt} (h : parseOpts b = some opts) :
    packOpts opts = b := (parseOptsN_pack h).1

theorem packOpts_concatenation {opts : List PppOpt} (h : ∀ x ∈ opts, x.v.length ≤ 253) :
    Concatenation (packOpts opts) := by
  induction opts with
  | nil => exact .nil
  | cons x opts ih =>
    have hx := h x (.head _)
    have hlen : (UInt8.ofNat (2 + x.v.length)).toNat = 2 + x.v.length := by
      rw [UInt8.toNat_ofNat']
      omega
    exact .cons x.t _ (by rw [hlen]; omega) (by rw [hlen]; omega)
      (ih fun y hy => h y (.tail _ hy))

/-- What was written can be read back. -/
theorem parseOpts_pack {opts : List PppOpt} (h : ∀ x ∈ opts, x.v.length ≤ 253) :
    parseOpts (packOpts opts) = some opts := by
  obtain ⟨back, hback⟩ := Option.isSome_iff_exists.1
    (parseOpts_isSome_iff.2 (packOpts_concatenation h))
  have heq := pack_parseOpts hback
  have hlen := (parseOptsN_pack hback).2.2
  rw [hback]
  congr 1
  clear hback
  induction opts generalizing back with
  | nil =>
    cases back with
    | nil => rfl
    | cons y ys => cases heq
  | cons x opts ih =>
    cases back with
    | nil => cases heq
    | cons y ys =>
      have hx := h x (.head _)
      have hy := hlen y (.head _)
      simp only [packOpts, List.flatMap_cons, List.cons_append, List.cons.injEq] at heq
      obtain ⟨ht, hl, hrest⟩ := heq
      have hvlen : y.v.length = x.v.length := by
        have hl := congrArg UInt8.toNat hl
        rw [UInt8.toNat_ofNat', UInt8.toNat_ofNat'] at hl
        omega
      obtain ⟨hv, hrest⟩ := List.append_inj hrest hvlen
      rw [ih (fun z hz => h z (.tail _ hz)) ys hrest fun z hz => hlen z (.tail _ hz)]
      have hyx : y = x := by
        cases x
        cases y
        rw [PppOpt.mk.injEq]
        exact ⟨ht, hv⟩
      rw [hyx]

/-! ## What a request is answered -/

section
variable (h : Host) (o : PppConfig)

/-- An option of LCP that we do not know, or one for authentication without a protocol. -/
def unsupported (x : PppOpt) : Bool :=
  if x.t = lcpAuth then x.v.length < 2
  else !(x.t == lcpMRU || x.t == lcpACCM || x.t == lcpMagic)

/-- An option that asks for a method the policy does not allow. -/
def unwanted (x : PppOpt) : Bool :=
  x.t == lcpAuth && match x.v with
    | a :: b :: rest => !wantAuth o (rd16 a b) (rest.headD 0)
    | _ => false

def lcpAnswer (pid : UInt8) (data : Bytes) (opts : List PppOpt) : Bytes :=
  if opts.filter unsupported ≠ [] then cp confRej pid (packOpts (opts.filter unsupported))
  else if opts.filter (unwanted o) ≠ [] then
    cp confNak pid (packOpts ((opts.filter (unwanted o)).map fun _ => ⟨lcpAuth, preferred o⟩))
  else cp confAck pid data

def ipcpAnswer (pid : UInt8) (data : Bytes) (opts : List PppOpt) : Bytes :=
  if opts.filter (fun x => x.t ≠ ipcpAddr) ≠ [] then
    cp confRej pid (packOpts (opts.filter fun x => x.t ≠ ipcpAddr))
  else cp confAck pid data

variable {h o}

/-- One option goes to the rejected ones, to the naked ones or to neither. -/
theorem scanOpt_sorts (r : LcpScan) (x : PppOpt) :
    (scanOpt o r x).rej = r.rej ++ [x].filter unsupported ∧
      (scanOpt o r x).nak = r.nak ++
        ([x].filter (unwanted o)).map fun _ => ⟨lcpAuth, preferred o⟩ := by
  unfold scanOpt
  split
  · rename_i ht
    have hne : x.t ≠ lcpAuth := by rcases ht with ht | ht | ht <;> rw [ht] <;> decide
    have hun : unsupported x = false := by
      rcases ht with ht | ht | ht <;> simp [unsupported, ht, lcpMRU, lcpACCM, lcpMagic, lcpAuth]
    simp [hun, unwanted, hne]
  rename_i ht
  simp only [not_or] at ht
  split
  · rename_i ha
    split
    · rename_i a b rest hv
      have hun : unsupported x = false := by simp [unsupported, ha, hv]
      have hwant : unwanted o x = !wantAuth o (rd16 a b) (rest.headD 0) := by
        unfold unwanted
        rw [ha, hv]
        rfl
      cases hw : wantAuth o (rd16 a b) (rest.headD 0) with
      | true =>
        rw [hw] at hwant
        simp [hun, hwant]
      | false =>
        rw [hw] at hwant
        simp [hun, hwant]
    · rename_i hv
      have hshort : x.v.length < 2 := by
        rcases hx : x.v with - | ⟨a, - | ⟨b, rest⟩⟩
        · exact Nat.zero_lt_two
        · exact Nat.one_lt_two
        · exact absurd hx (hv a b rest)
      have hun : unsupported x = true := by simp [unsupported, ha, hshort]
      have hwant : unwanted o x = false := by
        unfold unwanted
        split
        · rename_i a b rest hx
          exact absurd hx (hv a b rest)
        · rw [Bool.and_false]
      simp [hun, hwant]
  · rename_i ha
    have hun : unsupported x = true := by simp [unsupported, ha, ht]
    simp [hun, unwanted, ha]

theorem scanOpts_sorts (opts : List PppOpt) :
    (scanOpts o opts).rej = opts.filter unsupported ∧
      (scanOpts o opts).nak = (opts.filter (unwanted o)).map fun _ => ⟨lcpAuth, preferred o⟩ := by
  have hfold (r : LcpScan) : (opts.foldl (scanOpt o) r).rej = r.rej ++ opts.filter unsupported ∧
      (opts.foldl (scanOpt o) r).nak = r.nak ++
        (opts.filter (unwanted o)).map fun _ => ⟨lcpAuth, preferred o⟩ := by
    induction opts generalizing r with
    | nil => simp
    | cons x opts ih =>
      obtain ⟨hrej, hnak⟩ := scanOpt_sorts (o := o) r x
      obtain ⟨ihrej, ihnak⟩ := ih (scanOpt o r x)
      rw [List.foldl_cons, ihrej, ihnak, hrej, hnak, ← List.singleton_append (l := opts),
        List.filter_append, List.filter_append, List.map_append, List.append_assoc,
        List.append_assoc]
      exact ⟨rfl, rfl⟩
  exact hfold ⟨[], [], 0⟩

/-- What a frame is answered first. -/
def Answers (n : Out) (f : Bytes) (before : List Ev) (proto : Nat) (answer : Bytes) : Prop :=
  ∃ s', n = .go s' ∧ s'.out = .sent proto answer :: .recv f :: before

theorem react_lcpConfReq {s : St} {f : Bytes} {p : Packet} {opts : List PppOpt}
    (hp : packet f = some p) (hpr : p.pr = pppLCP) (hc : p.code = confReq)
    (hopts : parseOpts p.data = some opts) :
    Answers (react h o s (.frame f)) f s.out pppLCP (lcpAnswer o p.pid p.data opts) := by
  obtain ⟨hrej, hnak⟩ := scanOpts_sorts (o := o) opts
  simp only [react, hp, handle, hpr, if_true, handleLCP, hc]
  refine ⟨_, rfl, ?_⟩
  simp only [lcpConfReq, hopts, hrej, hnak, lcpAnswer]
  by_cases h1 : opts.filter unsupported = []
  · by_cases h2 : opts.filter (unwanted o) = []
    · simp [h1, h2, St.send]
    · simp [h1, h2, St.send]
  · simp [h1, St.send]

theorem react_ipcpConfReq {s : St} {f : Bytes} {p : Packet} {opts : List PppOpt}
    (hp : packet f = some p) (hpr : p.pr = pppIPCP) (hc : p.code = confReq)
    (hopts : parseOpts p.data = some opts) :
    Answers (react h o s (.frame f)) f s.out pppIPCP (ipcpAnswer p.pid p.data opts) := by
  simp only [react, hp, handle, hpr, handleIPCP, hc, if_true]
  refine ⟨_, rfl, ?_⟩
  simp only [ipcpConfReq, hopts, ipcpAnswer]
  split
  · rfl
  · rfl

/-- One more event, met in a waiting state. -/
theorem run_snoc {s s' : St} {es : List Event} (e : Event)
    (hrun : (machine h o).run s es = (s', none)) :
    (machine h o).run s (es ++ [e]) =
      match react h o s' e with
      | .ret t r => (t, some r)
      | .go t => (machine h o).run t [] := by
  induction es generalizing s with
  | nil =>
    rw [List.nil_append, Machine.run_cons]
    rw [Machine.run] at hrun
    cases hs : (machine h o).settle s with
    | ret t r => rw [hs] at hrun; cases hrun
    | go t =>
      rw [hs] at hrun
      obtain rfl := (Prod.mk.inj hrun).1
      change (machine h o).after t e [] = _
      unfold Machine.after
      cases hr : react h o t e <;> simp only [machine, hr]
  | cons e' es ih =>
    rw [List.cons_append, Machine.run_cons]
    rw [Machine.run_cons] at hrun
    cases hs : (machine h o).settle s with
    | ret t r => rw [hs] at hrun; cases hrun
    | go t =>
      rw [hs] at hrun
      dsimp only [Machine.after] at hrun ⊢
      cases hr : (machine h o).react t e' with
      | ret u r => rw [hr] at hrun; cases hrun
      | go u =>
        rw [hr] at hrun
        exact ih hrun

/-- What a frame is answered stands in the history behind it. -/
theorem negotiate_answers {s : St} {es : List Event} {f : Bytes} {proto : Nat} {answer : Bytes}
    (hrun : pppNegotiate h o es = (s, none))
    (ha : Answers (react h o s (.frame f)) f s.out proto answer) :
    ∃ newer, (pppNegotiate h o (es ++ [.frame f])).1.out =
      newer ++ .sent proto answer :: .recv f :: s.out := by
  obtain ⟨s', hs', hout⟩ := ha
  unfold pppNegotiate at hrun ⊢
  split at hrun
  · rename_i hsend
    rw [if_pos hsend, run_snoc (.frame f) hrun, hs']
    obtain ⟨newer, hnewer⟩ : s'.out <:+ ((machine h o).run s' []).1.out := run_out_suffix h o
    exact ⟨newer, by rw [← hnewer, hout]⟩
  · cases hrun

end

/-- **Options and their answers.** What `parseOpts` accepts is what is well formed, and nothing of
it is lost; every request with such options is answered under its identifier with what
`lcpAnswer` and `ipcpAnswer` say. -/
theorem options_answered (h : Host) (o : PppConfig) :
    (∀ b, (parseOpts b).isSome ↔ Concatenation b) ∧
    (∀ b opts, parseOpts b = some opts → packOpts opts = b) ∧
    ∀ es s f p opts, pppNegotiate h o es = (s, none) → packet f = some p → p.code = confReq →
      parseOpts p.data = some opts →
      (p.pr = pppLCP → ∃ newer, (pppNegotiate h o (es ++ [.frame f])).1.out =
        newer ++ .sent pppLCP (lcpAnswer o p.pid p.data opts) :: .recv f :: s.out) ∧
      (p.pr = pppIPCP → ∃ newer, (pppNegotiate h o (es ++ [.frame f])).1.out =
        newer ++ .sent pppIPCP (ipcpAnswer p.pid p.data opts) :: .recv f :: s.out) := by
  refine ⟨fun b => parseOpts_isSome_iff, fun b opts => pack_parseOpts,
    fun es s f p opts hrun hp hc hopts => ⟨fun hpr => ?_, fun hpr => ?_⟩⟩
  · exact negotiate_answers hrun (react_lcpConfReq hp hpr hc hopts)
  · exact negotiate_answers hrun (react_ipcpConfReq hp hpr hc hopts)

/-- A request with a good option, one that is not known and one for authentication. -/
def mixed : List PppOpt := [⟨lcpMRU, [5, 120]⟩, ⟨7, []⟩, ⟨lcpAuth, [0xc0, 0x23]⟩]

theorem mixed_answered : packOpts mixed = [1, 4, 5, 120, 7, 2, 3, 4, 0xc0, 0x23] ∧
    ∃ newer, (pppNegotiate .plain (.plain .mschapv2)
      ([] ++ [.cp pppLCP confReq 9 (packOpts mixed)])).1.out =
        newer ++ .sent pppLCP (cp confRej 9 [7, 2]) ::
          .recv (be16 pppLCP ++ cp confReq 9 (packOpts mixed)) ::
            (pppNegotiate .plain (.plain .mschapv2) []).1.out := by
  have hrun : pppNegotiate .plain (.plain .mschapv2) [] =
      ((pppNegotiate .plain (.plain .mschapv2) []).1, none) := Prod.ext rfl (by decide)
  have hp : packet (be16 pppLCP ++ cp confReq 9 (packOpts mixed)) =
      some ⟨pppLCP, confReq, 9, packOpts mixed, cp confReq 9 (packOpts mixed)⟩ := by decide
  have hopts : parseOpts (packOpts mixed) = some mixed := by decide
  have hanswer : lcpAnswer (.plain .mschapv2) 9 (packOpts mixed) mixed = cp confRej 9 [7, 2] := by
    decide
  have h := ((options_answered .plain (.plain .mschapv2)).2.2 [] _ _ _ _ hrun hp rfl hopts).1 rfl
  rw [hanswer] at h
  exact ⟨by decide, h⟩

end Ghajar.Ppp
