import Ghajar.Softether.Pack

/-!
# Packs there and back

An `Element` is what the reader takes at a time: a name, a type and values that
all have it. `readPack_reads` says that the reader accepts the streams of
elements within its limits and returns what they add up to. A pack reads back
as itself when it can be written as such a stream.
-/

namespace Ghajar.Softether

open ByteReader Bytes

/-- A value as the reader makes one: the fields its type has no use for are empty. -/
def PackValue.Wf (v : PackValue) : Prop :=
  (v.typ = packInt ∧ v.b = [] ∧ v.i.toNat < 4294967296) ∨ (v.typ = packInt64 ∧ v.b = []) ∨
    ((v.typ = packData ∨ v.typ = packStr ∨ v.typ = packUniStr) ∧ v.i = 0 ∧
      v.b.length < 4294967296)

/-- A value as the reader expects it: a wide string is as long as its header says. -/
def PackValue.wire (v : PackValue) : List UInt8 :=
  if v.typ = packInt then be32 v.i.toUInt32
  else if v.typ = packInt64 then be64 v.i
  else be32 (UInt32.ofNat v.b.length) ++ v.b

structure Element where
  name : List UInt8
  typ : UInt32
  values : List PackValue

namespace Element

structure Wf (e : Element) : Prop where
  name_le : e.name.length ≤ 63
  values_le : e.values.length ≤ 65536
  values_wf : ∀ v ∈ e.values, v.Wf
  values_typ : ∀ v ∈ e.values, v.typ = e.typ

def wire (e : Element) : List UInt8 :=
  be32 (UInt32.ofNat (e.name.length + 1)) ++ (e.name ++ (be32 e.typ ++
    (be32 (UInt32.ofNat e.values.length) ++ e.values.flatMap PackValue.wire)))

end Element

def Pack.addAll (p : Pack) (e : Element) : Pack := e.values.foldl (fun p v => p.add e.name v) p

/-- The pack that elements add up to. -/
def Pack.ofElements (es : List Element) : Pack := es.foldl Pack.addAll newPack

/-! ## What is read -/

theorem u64_toUInt32_toUInt64 {x : UInt64} (h : x.toNat < 4294967296) :
    x.toUInt32.toUInt64 = x := by
  apply UInt64.toNat_inj.1
  rw [UInt32.toNat_toUInt64, UInt64.toNat_toUInt32]
  omega

theorem ofNat_length {v : UInt32} {b : List UInt8} (h : b.length = v.toNat) :
    UInt32.ofNat b.length = v := by rw [h, UInt32.ofNat_toNat]

theorem readValue_reads (typ : UInt32) :
    Reads (readValue typ) fun v w => (v.Wf ∧ v.typ = typ) ∧ w = v.wire := by
  refine (reads_ite
    (fun _ => reads_bind (reads_word32 _ _) fun x => reads_pure _)
    fun _ => reads_ite
      (fun _ => reads_bind (reads_word64 _ _) fun x => reads_pure _)
      fun _ => reads_ite
        (fun _ => reads_bind (reads_word32 _ _) fun n =>
          reads_bind (reads_readFull _ _ n.toNat) fun b => reads_pure _)
        fun _ => reads_fail _).congr ?_
  intro v w
  constructor
  · intro h
    split at h
    · rename_i ht
      obtain ⟨x, w, t, rfl, ⟨rfl, rfl⟩, rfl⟩ := h
      refine ⟨⟨.inl ⟨ht, rfl, ?_⟩, rfl⟩, by simp [PackValue.wire, ht]⟩
      show x.toUInt64.toNat < _
      rw [UInt32.toNat_toUInt64]
      exact x.toNat_lt
    split at h
    · rename_i hi ht
      obtain ⟨x, w, t, rfl, ⟨rfl, rfl⟩, rfl⟩ := h
      exact ⟨⟨.inr (.inl ⟨ht, rfl⟩), rfl⟩, by simp [PackValue.wire, ht, packInt64, packInt]⟩
    split at h
    · rename_i hi hl ht
      obtain ⟨n, w, t, rfl, ⟨b, w', u, ⟨hb, rfl⟩, ⟨rfl, rfl⟩, rfl⟩, rfl⟩ := h
      refine ⟨⟨.inr (.inr ⟨ht, rfl, ?_⟩), rfl⟩, ?_⟩
      · show w'.length < _
        rw [hb]
        exact n.toNat_lt
      · simp only [PackValue.wire, hi, hl, if_false, ofNat_length hb, List.append_nil]
    · exact h.elim
  · rintro ⟨⟨hv, rfl⟩, rfl⟩
    rcases v with ⟨i, b, typ⟩
    rcases hv with ⟨rfl, rfl, hi⟩ | ⟨rfl, rfl⟩ | ⟨ht, rfl, hb⟩
    · rw [if_pos rfl]
      refine ⟨i.toUInt32, _, [], rfl, ⟨?_, rfl⟩, by simp [PackValue.wire]⟩
      rw [u64_toUInt32_toUInt64 hi]
    · have hi : packInt64 ≠ packInt := by decide
      rw [if_neg hi, if_pos rfl]
      exact ⟨i, _, [], rfl, ⟨rfl, rfl⟩, by simp [PackValue.wire, packInt64, packInt]⟩
    · have ht' : typ = packData ∨ typ = packStr ∨ typ = packUniStr := ht
      have hi : typ ≠ packInt := by rcases ht' with rfl | rfl | rfl <;> decide
      have hl : typ ≠ packInt64 := by rcases ht' with rfl | rfl | rfl <;> decide
      rw [if_neg hi, if_neg hl, if_pos ht']
      have hn : (UInt32.ofNat b.length).toNat = b.length := UInt32.toNat_ofNat_of_lt' hb
      exact ⟨UInt32.ofNat b.length, _, b, rfl, ⟨b, b, [], ⟨hn.symm, rfl⟩, ⟨rfl, rfl⟩, by simp⟩,
        by simp [PackValue.wire, hi, hl]⟩

/-- The type is read as a word where what comes after it needs at least one byte. -/
theorem readTyp_reads {β : Type} {k : UInt32 → ByteReader PackErr β}
    {W : UInt32 → β → List UInt8 → Prop} (hk : ∀ t, Reads (k t) (W t)) (hne : ∀ t b, ¬W t b []) :
    Reads (readTyp >>= k) fun b w => ∃ t v u, v = be32 t ∧ W t b u ∧ w = v ++ u := by
  intro s b rest
  rw [bind_ok]
  constructor
  · rintro ⟨t, mid, ht, hb⟩
    unfold readTyp at ht
    split at ht
    · rename_i hl
      cases ht
      obtain ⟨u, hu, he⟩ := (hk _ _ _ _).1 hb
      have h4 : (s.take 4).length = 4 := by
        rw [List.length_take]
        omega
      refine ⟨s.take 4 ++ u, ⟨_, s.take 4, u, (be32_rd32 h4).symm, hu, rfl⟩, ?_⟩
      rw [List.append_assoc, ← he, List.take_append_drop]
    · cases ht
      obtain ⟨u, hu, he⟩ := (hk _ _ _ _).1 hb
      obtain ⟨rfl, -⟩ := List.nil_eq_append_iff.1 he
      exact (hne _ _ hu).elim
  · rintro ⟨w, ⟨t, v, u, rfl, hu, rfl⟩, rfl⟩
    refine ⟨t, u ++ rest, ?_, (hk t).ok hu⟩
    have hl : (be32 t).length = 4 := be32_length t
    unfold readTyp
    rw [if_pos (by simp), List.append_assoc]
    rw [show (4 : Nat) = (be32 t).length from hl.symm, List.take_left, List.drop_left, rd32_be32]

theorem readElement_reads (p : Pack) :
    Reads (readElement p) fun q w => ∃ e : Element, (e.Wf ∧ w = e.wire) ∧ q = p.addAll e := by
  have hv : ∀ (nb : List UInt8) (typ : UInt32) (p : Pack), Reads (do
      let v ← readValue typ
      pure (p.add nb v))
      fun q w => ∃ v : PackValue, ((v.Wf ∧ v.typ = typ) ∧ w = v.wire) ∧ q = p.add nb v := by
    intro nb typ p
    refine (reads_bind (readValue_reads typ) fun v => reads_pure (p.add nb v)).congr ?_
    intro q w
    constructor
    · rintro ⟨v, w, u, hw, ⟨rfl, rfl⟩, rfl⟩
      rw [List.append_nil]
      exact ⟨v, hw, rfl⟩
    · rintro ⟨v, hw, rfl⟩
      exact ⟨v, w, [], hw, ⟨rfl, rfl⟩, (List.append_nil w).symm⟩
  refine (reads_bind (reads_word32 _ _) fun nl => reads_ite (fun _ => reads_fail _) fun _ =>
    reads_bind (reads_readFull _ _ (nl - 1).toNat) fun nb =>
      readTyp_reads (fun typ => reads_bind (reads_word32 _ _) fun num =>
        reads_ite (fun _ => reads_fail _) fun _ => reads_loop (hv nb typ) num.toNat p) ?_).congr ?_
  · rintro t q ⟨num, v, u, rfl, -, h⟩
    have := congrArg List.length h
    simp only [List.length_append, be32_length, List.length_nil] at this
    omega
  intro q w
  constructor
  · rintro ⟨nl, v, u, rfl, h, rfl⟩
    split at h
    · exact h.elim
    · rename_i hnl
      obtain ⟨nb, v, u, ⟨hnb, rfl⟩, ⟨typ, v, u', rfl, ⟨num, v, u'', rfl, h, rfl⟩, rfl⟩, rfl⟩ := h
      split at h
      · exact h.elim
      · rename_i hnum
        obtain ⟨vs, hl, hw, rfl⟩ := h
        obtain ⟨hvs, rfl⟩ := words_fun.1 hw
        rw [not_or, gt_iff_lt, UInt32.not_lt] at hnl
        have h0 : nl.toNat ≠ 0 := fun h0 => hnl.1 (UInt32.toNat_inj.1 h0)
        have h64 : nl.toNat ≤ 64 := hnl.2
        have hn1 : (nl - 1).toNat = nl.toNat - 1 := by
          rw [UInt32.toNat_sub_of_le _ _ (by rw [UInt32.le_iff_toNat_le]; show 1 ≤ _; omega)]
          rfl
        have hnum' : num.toNat ≤ 65536 := UInt32.not_lt.1 hnum
        refine ⟨⟨v, typ, vs⟩, ⟨⟨?_, ?_, fun x hx => (hvs x hx).1, fun x hx => (hvs x hx).2⟩, ?_⟩,
          rfl⟩
        · show v.length ≤ 63
          omega
        · show vs.length ≤ 65536
          omega
        · have hname : UInt32.ofNat (v.length + 1) = nl := by
            rw [hnb, hn1, Nat.sub_add_cancel (by omega), UInt32.ofNat_toNat]
          have hcount : UInt32.ofNat vs.length = num := by rw [hl, UInt32.ofNat_toNat]
          simp only [Element.wire, hname, hcount]
  · rintro ⟨e, ⟨he, rfl⟩, rfl⟩
    have hname := he.name_le
    have hcount := he.values_le
    have hn : (UInt32.ofNat (e.name.length + 1)).toNat = e.name.length + 1 :=
      UInt32.toNat_ofNat_of_lt' (by show _ < 4294967296; omega)
    have hc : (UInt32.ofNat e.values.length).toNat = e.values.length :=
      UInt32.toNat_ofNat_of_lt' (by show _ < 4294967296; omega)
    refine ⟨_, _, _, rfl, ?_, rfl⟩
    rw [if_neg]
    · have hn1 : (UInt32.ofNat (e.name.length + 1) - 1).toNat = e.name.length := by
        rw [UInt32.toNat_sub_of_le _ _ (by rw [UInt32.le_iff_toNat_le, hn]; show 1 ≤ _; omega), hn]
        rfl
      refine ⟨e.name, e.name, _, ⟨hn1.symm, rfl⟩, ⟨e.typ, _, _, rfl, ⟨_, _, _, rfl, ?_, rfl⟩, rfl⟩,
        rfl⟩
      rw [if_neg]
      · exact ⟨e.values, hc.symm,
          words_fun.2 ⟨fun v hv => ⟨he.values_wf v hv, he.values_typ v hv⟩, rfl⟩, rfl⟩
      · rw [gt_iff_lt, UInt32.lt_iff_toNat_lt, hc]
        show ¬65536 < _
        omega
    · rintro (h | h)
      · have : (UInt32.ofNat (e.name.length + 1)).toNat = 0 := by rw [h]; rfl
        omega
      · rw [gt_iff_lt, UInt32.lt_iff_toNat_lt, hn] at h
        have : 64 < e.name.length + 1 := h
        omega

/-- The reader accepts a count and as many elements, and returns what they add up to. -/
theorem readPack_reads :
    Reads readPack fun p w => ∃ es : List Element, es.length ≤ 4096 ∧ (∀ e ∈ es, e.Wf) ∧
      w = be32 (UInt32.ofNat es.length) ++ es.flatMap Element.wire ∧ p = .ofElements es := by
  refine (reads_bind (reads_word32 _ _) fun count => reads_ite (fun _ => reads_fail _)
    fun _ => reads_loop readElement_reads count.toNat newPack).congr ?_
  intro p w
  constructor
  · rintro ⟨count, v, u, rfl, h, rfl⟩
    split at h
    · exact h.elim
    · rename_i hc
      obtain ⟨es, hl, hw, rfl⟩ := h
      obtain ⟨hes, rfl⟩ := words_fun.1 hw
      have hle : count.toNat ≤ 4096 := UInt32.not_lt.1 hc
      exact ⟨es, by omega, hes, by rw [hl, UInt32.ofNat_toNat], rfl⟩
  · rintro ⟨es, hl, hes, rfl, rfl⟩
    have hc : (UInt32.ofNat es.length).toNat = es.length :=
      UInt32.toNat_ofNat_of_lt' (by show _ < 4294967296; omega)
    refine ⟨_, _, _, rfl, ?_, rfl⟩
    rw [if_neg]
    · exact ⟨es, hc.symm, words_fun.2 ⟨hes, rfl⟩, rfl⟩
    · rw [gt_iff_lt, UInt32.lt_iff_toNat_lt, hc]
      show ¬4096 < _
      omega

theorem unmarshalPack_ok {data : List UInt8} {p : Pack} :
    unmarshalPack data = .ok p ↔ ∃ (es : List Element) (rest : List UInt8), es.length ≤ 4096 ∧
      (∀ e ∈ es, e.Wf) ∧ p = .ofElements es ∧
      data = be32 (UInt32.ofNat es.length) ++ (es.flatMap Element.wire ++ rest) := by
  have hr := readPack_reads data p
  unfold unmarshalPack
  constructor
  · intro h
    split at h
    · rename_i q rest hq
      cases h
      obtain ⟨w, ⟨es, hl, hes, rfl, rfl⟩, rfl⟩ := (hr rest).1 hq
      exact ⟨es, rest, hl, hes, rfl, List.append_assoc _ _ _⟩
    · cases h
  · rintro ⟨es, rest, hl, hes, rfl, rfl⟩
    rw [(hr rest).2 ⟨_, ⟨es, hl, hes, rfl, rfl⟩, (List.append_assoc _ _ _).symm⟩]

/-! ## What elements add up to -/

namespace Pack

theorem ext_vals {p q : Pack} (hn : p.names = q.names) (hv : ∀ n, p.vals n = q.vals n) : p = q :=
  Pack.ext hn (funext hv)

theorem addValues_vals (vs : List PackValue) (p : Pack) (name n : List UInt8) :
    (vs.foldl (fun p v => p.add name v) p).vals n =
      p.vals n ++ if n = name then vs else [] := by
  induction vs generalizing p with
  | nil => simp
  | cons v vs ih =>
    rw [List.foldl_cons, ih]
    by_cases h : n = name
    · simp [add, h]
    · simp [add, h]

theorem addValues_names (vs : List PackValue) (p : Pack) (name : List UInt8) :
    (vs.foldl (fun p v => p.add name v) p).names =
      if vs = [] ∨ p.vals name ≠ [] then p.names else p.names ++ [name] := by
  induction vs generalizing p with
  | nil => simp
  | cons v vs ih =>
    have hne : (p.add name v).vals name ≠ [] := by simp [add]
    rw [List.foldl_cons, ih, if_pos (.inr hne)]
    by_cases h : p.vals name = []
    · simp [add, h]
    · simp [add, h]

theorem ofElements_vals (es : List Element) (p : Pack) (n : List UInt8) :
    (es.foldl addAll p).vals n =
      p.vals n ++ es.flatMap fun e => if n = e.name then e.values else [] := by
  induction es generalizing p with
  | nil => simp
  | cons e es ih =>
    rw [List.foldl_cons, ih, addAll, addValues_vals, List.flatMap_cons, List.append_assoc]

/-- Elements add names of theirs, in order, at most one each. -/
theorem ofElements_names (es : List Element) (p : Pack) :
    ∃ l, l.Sublist (es.map Element.name) ∧ (es.foldl addAll p).names = p.names ++ l := by
  induction es generalizing p with
  | nil => exact ⟨[], List.Sublist.refl _, by simp⟩
  | cons e es ih =>
    obtain ⟨l, hl, hn⟩ := ih (p.addAll e)
    rw [List.foldl_cons, hn, addAll, addValues_names]
    split
    · exact ⟨l, hl.cons _, rfl⟩
    · exact ⟨e.name :: l, hl.cons_cons _, by simp⟩

theorem ofElements_names_eq {es : List Element} {p : Pack} (hn : (es.map Element.name).Nodup)
    (hv : ∀ e ∈ es, e.values ≠ [] ∧ p.vals e.name = []) :
    (es.foldl addAll p).names = p.names ++ es.map Element.name := by
  induction es generalizing p with
  | nil => simp
  | cons e es ih =>
    rw [List.forall_mem_cons] at hv
    rw [List.map_cons, List.nodup_cons] at hn
    have hne : ∀ d ∈ es, d.values ≠ [] ∧ (p.addAll e).vals d.name = [] := by
      intro d hd
      refine ⟨(hv.2 d hd).1, ?_⟩
      have hde : d.name ≠ e.name := fun h => hn.1 (h ▸ List.mem_map_of_mem hd)
      rw [addAll, addValues_vals, if_neg hde, (hv.2 d hd).2]
      rfl
    rw [List.foldl_cons, ih hn.2 hne, addAll, addValues_names,
      if_neg (by simp [hv.1.1, hv.1.2])]
    simp

/-- Among elements of different names, the values under a name are those of its element. -/
theorem values_of_name {es : List Element} (hn : (es.map Element.name).Nodup) {e : Element}
    (he : e ∈ es) : (es.flatMap fun d => if e.name = d.name then d.values else []) = e.values := by
  induction es with
  | nil => cases he
  | cons d es ih =>
    rw [List.map_cons, List.nodup_cons] at hn
    rw [List.flatMap_cons]
    rcases List.mem_cons.1 he with rfl | he
    · have hz : (es.flatMap fun d => if e.name = d.name then d.values else []) = [] := by
        rw [List.flatMap_eq_nil_iff]
        intro d hd
        apply if_neg
        intro h
        rw [h] at hn
        exact hn.1 (List.mem_map_of_mem hd)
      rw [if_pos rfl, hz, List.append_nil]
    · have hde : e.name ≠ d.name := fun h => hn.1 (h ▸ List.mem_map_of_mem he)
      rw [if_neg hde, List.nil_append, ih hn.2 he]

/-- As many elements as names: each element is one of the names with all its values. -/
theorem ofElements_full {es : List Element}
    (hl : (ofElements es).names.length = es.length) :
    (ofElements es).names = es.map Element.name ∧
      ∀ e ∈ es, (ofElements es).vals e.name = e.values := by
  obtain ⟨l, hs, hn⟩ := ofElements_names es newPack
  have hnames : (ofElements es).names = l := by
    rw [ofElements, hn]
    rfl
  have hle : l = es.map Element.name := by
    apply hs.eq_of_length
    rw [← hnames, hl, List.length_map]
  rw [hle] at hnames
  have hd : (es.map Element.name).Nodup := hnames ▸ (ofElements es).nodup
  refine ⟨hnames, fun e he => ?_⟩
  rw [ofElements, ofElements_vals]
  exact values_of_name hd he

/-- A pack's names with their values, as elements. -/
def elements (p : Pack) : List Element := p.names.map fun n => ⟨n, p.headTyp n, p.vals n⟩

theorem ofElements_elements (p : Pack) : ofElements p.elements = p := by
  have hm : p.elements.map Element.name = p.names := by
    simp [elements, Function.comp_def]
  have hd : (p.elements.map Element.name).Nodup := hm ▸ p.nodup
  have hv : ∀ e ∈ p.elements, e.values ≠ [] ∧ newPack.vals e.name = [] := by
    intro e he
    obtain ⟨n, hn, rfl⟩ := List.mem_map.1 he
    exact ⟨(p.named n).1 hn, rfl⟩
  have hn : (ofElements p.elements).names = p.names := by
    rw [ofElements, ofElements_names_eq hd hv, hm]
    rfl
  refine ext_vals hn fun n => ?_
  by_cases hmem : n ∈ p.names
  · have he : (⟨n, p.headTyp n, p.vals n⟩ : Element) ∈ p.elements := List.mem_map_of_mem hmem
    have := values_of_name hd he
    rw [ofElements, ofElements_vals]
    exact this
  · have hz : p.vals n = [] := by
      by_contra hne
      exact hmem ((p.named n).2 hne)
    have hz' : (ofElements p.elements).vals n = [] := by
      by_contra hne
      exact hmem (hn ▸ ((ofElements p.elements).named n).2 hne)
    rw [hz, hz']

end Pack

/-! ## Packs that read back as themselves -/

/-- The values of a name have one type, which is not the wide string's, and are few enough to be
read as one element. -/
def Pack.Regular (p : Pack) : Prop :=
  ∀ n ∈ p.names, (p.vals n).length ≤ 65536 ∧
    ∀ v ∈ p.vals n, v.typ ≠ packUniStr ∧ ∀ u ∈ p.vals n, u.typ = v.typ

theorem PackValue.bytes_eq_wire {v : PackValue} (hw : v.Wf) (hu : v.typ ≠ packUniStr) :
    v.bytes = v.wire := by
  unfold PackValue.bytes PackValue.wire
  rcases hw with ⟨ht, -, -⟩ | ⟨ht, -⟩ | ⟨ht | ht | ht, -, -⟩
  · rw [if_pos ht, if_pos ht]
  · simp only [ht]
    rfl
  · simp only [ht]
    rfl
  · simp only [ht]
    rfl
  · exact absurd ht hu

theorem Pack.headTyp_eq {p : Pack} {n : List UInt8} {v : PackValue} (hv : v ∈ p.vals n)
    (h : ∀ u ∈ p.vals n, u.typ = v.typ) : p.headTyp n = v.typ := by
  unfold Pack.headTyp
  cases hvs : p.vals n with
  | nil =>
    rw [hvs] at hv
    cases hv
  | cons u vs => exact h u (by rw [hvs]; exact List.mem_cons_self)

/-- A regular pack of readable names and values is written as the stream of its elements. -/
theorem Pack.read_back {p : Pack} (hr : p.Regular) (hc : p.names.length ≤ 4096)
    (hn : ∀ n ∈ p.names, n.length ≤ 63) (hv : ∀ n, ∀ v ∈ p.vals n, v.Wf) :
    unmarshalPack p.marshal = .ok p := by
  have hlen : p.elements.length = p.names.length := List.length_map _
  rw [unmarshalPack_ok]
  refine ⟨p.elements, [], by rw [hlen]; exact hc, ?_, p.ofElements_elements.symm, ?_⟩
  · intro e he
    obtain ⟨n, hmem, rfl⟩ := List.mem_map.1 he
    obtain ⟨hle, htyp⟩ := hr n hmem
    exact ⟨hn n hmem, hle, hv n, fun v hv => (headTyp_eq hv (htyp v hv).2).symm⟩
  · rw [List.append_nil, hlen, marshal]
    congr 1
    unfold elements
    rw [List.flatMap_map]
    apply List.flatMap_congr
    intro n hmem
    have hvals : (p.vals n).flatMap PackValue.bytes = (p.vals n).flatMap PackValue.wire :=
      List.flatMap_congr fun v hv' =>
        PackValue.bytes_eq_wire (hv n v hv') ((hr n hmem).2 v hv').1
    show p.elementBytes n = Element.wire ⟨n, p.headTyp n, p.vals n⟩
    unfold elementBytes Element.wire
    rw [hvals]

/-! ## A decoded pack, written and read again -/

theorem be32_ofNat_inj {a b : Nat} (ha : a < 4294967296) (hb : b < 4294967296)
    (h : be32 (UInt32.ofNat a) = be32 (UInt32.ofNat b)) : a = b := by
  have := congrArg UInt32.toNat (be32_inj h)
  rwa [UInt32.toNat_ofNat_of_lt' ha, UInt32.toNat_ofNat_of_lt' hb] at this

theorem be32_append_inj {a b : UInt32} {s t : List UInt8} (h : be32 a ++ s = be32 b ++ t) :
    a = b ∧ s = t := by
  obtain ⟨h1, h2⟩ := List.append_inj h (by simp)
  exact ⟨be32_inj h1, h2⟩

theorem ofNat_succ_ne (n : Nat) : UInt32.ofNat (n + 1) ≠ UInt32.ofNat n := by
  intro h
  have := congrArg UInt32.toNat h
  rw [UInt32.toNat_ofNat', UInt32.toNat_ofNat'] at this
  omega

/-- Where written values are read as they stand, none is a wide string: the length written for
one is not the length it has. -/
theorem bytes_wire_agree {vs : List PackValue} (hw : ∀ v ∈ vs, v.Wf) {s t : List UInt8}
    (h : vs.flatMap PackValue.bytes ++ s = vs.flatMap PackValue.wire ++ t) :
    (∀ v ∈ vs, v.typ ≠ packUniStr) ∧ s = t := by
  induction vs with
  | nil => exact ⟨by simp, h⟩
  | cons v vs ih =>
    rw [List.forall_mem_cons] at hw
    rw [List.flatMap_cons, List.flatMap_cons, List.append_assoc, List.append_assoc] at h
    by_cases hv : v.typ = packUniStr
    · exfalso
      have hb : v.bytes = be32 (UInt32.ofNat (v.b.length + 1)) ++ (v.b ++ [0]) := by
        simp only [PackValue.bytes, hv]
        rfl
      have hwv : v.wire = be32 (UInt32.ofNat v.b.length) ++ v.b := by
        simp only [PackValue.wire, hv]
        rfl
      rw [hb, hwv, List.append_assoc, List.append_assoc] at h
      exact ofNat_succ_ne _ (be32_append_inj h).1
    · rw [PackValue.bytes_eq_wire hw.1 hv] at h
      obtain ⟨hvs, hst⟩ := ih hw.2 (List.append_cancel_left h)
      exact ⟨List.forall_mem_cons.2 ⟨hv, hvs⟩, hst⟩

/-- The same for elements, their headers alike. -/
theorem elements_agree {p : Pack} {es : List Element} (hw : ∀ e ∈ es, e.Wf)
    (hp : ∀ e ∈ es, p.vals e.name = e.values) {s t : List UInt8}
    (h : (es.map Element.name).flatMap p.elementBytes ++ s = es.flatMap Element.wire ++ t) :
    ∀ e ∈ es, ∀ v ∈ e.values, v.typ ≠ packUniStr := by
  induction es with
  | nil => simp
  | cons e es ih =>
    rw [List.forall_mem_cons] at hw hp
    simp only [List.map_cons, List.flatMap_cons, List.append_assoc, Pack.elementBytes,
      Element.wire, hp.1] at h
    have h1 := List.append_cancel_left (be32_append_inj h).2
    have h2 := (be32_append_inj (be32_append_inj h1).2).2
    obtain ⟨hv, hst⟩ := bytes_wire_agree hw.1.values_wf h2
    exact List.forall_mem_cons.2 ⟨hv, ih hw.2 hp.2 hst⟩

theorem Pack.ofElements_wf {es : List Element} (hes : ∀ e ∈ es, e.Wf) :
    (∀ n ∈ (ofElements es).names, n.length ≤ 63) ∧ ∀ n, ∀ v ∈ (ofElements es).vals n, v.Wf := by
  constructor
  · intro n hn
    obtain ⟨l, hs, hl⟩ := ofElements_names es newPack
    rw [ofElements, hl] at hn
    obtain ⟨e, he, rfl⟩ := List.mem_map.1 (hs.subset hn)
    exact (hes e he).name_le
  · intro n v hv
    rw [ofElements, ofElements_vals] at hv
    obtain ⟨e, he, hv⟩ := List.mem_flatMap.1 hv
    split at hv
    · exact (hes e he).values_wf v hv
    · cases hv

theorem Pack.ofElements_count (es : List Element) :
    (ofElements es).names.length ≤ es.length := by
  obtain ⟨l, hs, hl⟩ := ofElements_names es newPack
  have hle := hs.length_le
  rw [List.length_map] at hle
  rw [ofElements, hl]
  exact hle

/-- A pack that reads back as itself is regular: as many elements were read as it has names, so
each of them is a name with all its values. -/
theorem Pack.regular_of_read_back {p : Pack} (h : unmarshalPack p.marshal = .ok p)
    (hc : p.names.length ≤ 4096) : p.Regular := by
  obtain ⟨es, rest, hl, hes, rfl, hm⟩ := unmarshalPack_ok.1 h
  obtain ⟨hcount, hm⟩ := be32_append_inj hm
  have hlen : (ofElements es).names.length = es.length := by
    have := congrArg UInt32.toNat hcount
    rwa [UInt32.toNat_ofNat_of_lt' (by show _ < 4294967296; omega),
      UInt32.toNat_ofNat_of_lt' (by show _ < 4294967296; omega)] at this
  obtain ⟨hnames, hvals⟩ := ofElements_full hlen
  rw [hnames, ← List.append_nil (List.flatMap _ _)] at hm
  have huni := elements_agree hes hvals hm
  intro n hn
  rw [hnames] at hn
  obtain ⟨e, he, rfl⟩ := List.mem_map.1 hn
  rw [hvals e he]
  refine ⟨(hes e he).values_le, fun v hv => ⟨huni e he v hv, fun u hu => ?_⟩⟩
  rw [(hes e he).values_typ u hu, (hes e he).values_typ v hv]

/-! ## Packs built by the program -/

/-- One call that adds a value. -/
inductive Add
  | int (n : List UInt8) (v : UInt32)
  | bool (n : List UInt8) (v : Bool)
  | str (n v : List UInt8)
  | data (n v : List UInt8)
  deriving DecidableEq, Repr

namespace Add

def apply (p : Pack) : Add → Pack
  | int n v => p.addInt n v
  | bool n v => p.addBool n v
  | str n v => p.addStr n v
  | data n v => p.addData n v

def name : Add → List UInt8
  | int n _ | bool n _ | str n _ | data n _ => n

def typ : Add → UInt32
  | int _ _ | bool _ _ => packInt
  | str _ _ => packStr
  | data _ _ => packData

/-- The bytes added, none for a number. -/
def content : Add → List UInt8
  | int _ _ | bool _ _ => []
  | str _ v | data _ v => v

/-- The pack a sequence of calls builds. -/
def build (adds : List Add) : Pack := adds.foldl apply newPack

def value : Add → PackValue
  | int _ v => { i := v.toUInt64, typ := packInt }
  | bool _ v => { i := if v then 1 else 0, typ := packInt }
  | str _ v => { b := v, typ := packStr }
  | data _ v => { b := v, typ := packData }

theorem apply_eq (p : Pack) (a : Add) : apply p a = p.add a.name a.value := by
  cases a with
  | bool n v => cases v <;> rfl
  | _ => rfl

theorem value_typ (a : Add) : a.value.typ = a.typ := by
  cases a <;> rfl

theorem typ_ne (a : Add) : a.typ ≠ packUniStr := by
  cases a
  · exact (by decide : packInt ≠ packUniStr)
  · exact (by decide : packInt ≠ packUniStr)
  · exact (by decide : packStr ≠ packUniStr)
  · exact (by decide : packData ≠ packUniStr)

theorem value_wf {a : Add} (h : a.content.length < 4294967296) : a.value.Wf := by
  cases a with
  | int n v =>
    refine .inl ⟨rfl, rfl, ?_⟩
    show v.toUInt64.toNat < _
    rw [UInt32.toNat_toUInt64]
    exact v.toNat_lt
  | bool n v =>
    refine .inl ⟨rfl, rfl, ?_⟩
    cases v
    · exact (by decide : (0 : UInt64).toNat < 4294967296)
    · exact (by decide : (1 : UInt64).toNat < 4294967296)
  | str n v => exact .inr (.inr ⟨.inr (.inl rfl), rfl, h⟩)
  | data n v => exact .inr (.inr ⟨.inl rfl, rfl, h⟩)

theorem mem_build {adds : List Add} {p : Pack} {n : List UInt8} {v : PackValue}
    (h : v ∈ (adds.foldl apply p).vals n) :
    v ∈ p.vals n ∨ ∃ a ∈ adds, a.name = n ∧ a.value = v := by
  induction adds generalizing p with
  | nil => exact .inl h
  | cons a adds ih =>
    rcases ih h with h | ⟨b, hb, hbv⟩
    · rw [apply_eq] at h
      by_cases hn : n = a.name
      · subst hn
        rw [Pack.add_vals, if_pos rfl, List.mem_append, List.mem_singleton] at h
        rcases h with h | rfl
        · exact .inl h
        · exact .inr ⟨a, List.mem_cons_self, rfl, rfl⟩
      · rw [Pack.add_vals, if_neg hn] at h
        exact .inl h
    · exact .inr ⟨b, List.mem_cons_of_mem a hb, hbv⟩

/-- What the reader's limits ask of the calls: names, values and their sizes. -/
structure Within (adds : List Add) : Prop where
  name_le : ∀ a ∈ adds, a.name.length ≤ 63
  one_typ : ∀ a ∈ adds, ∀ b ∈ adds, a.name = b.name → a.typ = b.typ
  names_le : (build adds).names.length ≤ 4096
  values_le : ∀ n ∈ (build adds).names, ((build adds).vals n).length ≤ 65536
  content_lt : ∀ a ∈ adds, a.content.length < 4294967296

theorem Within.read_back {adds : List Add} (h : Within adds) :
    unmarshalPack (build adds).marshal = .ok (build adds) := by
  have hmem : ∀ {n v}, v ∈ (build adds).vals n → ∃ a ∈ adds, a.name = n ∧ a.value = v := by
    intro n v hv
    rcases mem_build hv with hv | hv
    · cases hv
    · exact hv
  apply Pack.read_back
  · intro n hn
    refine ⟨h.values_le n hn, fun v hv => ?_⟩
    obtain ⟨a, ha, rfl, rfl⟩ := hmem hv
    constructor
    · rw [value_typ]
      exact a.typ_ne
    · intro u hu
      obtain ⟨b, hb, hbn, rfl⟩ := hmem hu
      rw [value_typ, value_typ]
      exact h.one_typ b hb a ha hbn
  · exact h.names_le
  · intro n hn
    obtain ⟨v, hv⟩ := List.exists_mem_of_ne_nil _ (((build adds).named n).1 hn)
    obtain ⟨a, ha, rfl, -⟩ := hmem hv
    exact h.name_le a ha
  · intro n v hv
    obtain ⟨a, ha, -, rfl⟩ := hmem hv
    exact value_wf (h.content_lt a ha)

end Add

/-- What the program builds within the limits reads back as it was. What it has decoded reads back
as it was exactly where every name has values of one type, none of them wide strings, and no more
of them than one element may have. -/
theorem pack_round_trips (adds : List Add) (data : List UInt8) :
    (Add.Within adds → unmarshalPack (Add.build adds).marshal = .ok (Add.build adds)) ∧
    ∀ p, unmarshalPack data = .ok p → (unmarshalPack p.marshal = .ok p ↔ p.Regular) := by
  refine ⟨fun h => h.read_back, fun p hp => ?_⟩
  obtain ⟨es, rest, hl, hes, rfl, -⟩ := unmarshalPack_ok.1 hp
  have hc := (Pack.ofElements_count es).trans hl
  obtain ⟨hn, hv⟩ := Pack.ofElements_wf hes
  exact ⟨fun h => Pack.regular_of_read_back h hc, fun h => Pack.read_back h hc hn hv⟩

/-- A method and a ticket, and an element with a number. -/
theorem method_and_number :
    unmarshalPack (Add.build [.str [109] [108, 111], .data [116] [0], .str [109] []]).marshal =
        .ok (Add.build [.str [109] [108, 111], .data [116] [0], .str [109] []]) ∧
      (unmarshalPack (newPack.addInt [97] 7).marshal = .ok (newPack.addInt [97] 7) ↔
        (newPack.addInt [97] 7).Regular) :=
  ⟨(pack_round_trips _ []).1 ⟨by decide, by decide, by decide, by decide, by decide⟩,
    (pack_round_trips [] [0, 0, 0, 1, 0, 0, 0, 2, 97, 0, 0, 0, 0, 0, 0, 0, 1, 0, 0, 0, 7]).2 _ rfl⟩

/-- A pack of one wide string, as a server may send it. -/
def wideWelcome : List UInt8 := [0, 0, 0, 1, 0, 0, 0, 2, 97, 0, 0, 0, 3, 0, 0, 0, 1, 0, 0, 0, 1, 65]

/-- The wide string has a zero more after each round. -/
theorem wide_string_grows :
    ¬∀ data p, unmarshalPack data = .ok p → unmarshalPack p.marshal = .ok p := by
  intro h
  have hp : unmarshalPack wideWelcome = .ok (newPack.add [97] { b := [65], typ := packUniStr }) :=
    rfl
  have hq : unmarshalPack (newPack.add [97] { b := [65], typ := packUniStr }).marshal =
      .ok (newPack.add [97] { b := [65, 0], typ := packUniStr }) := rfl
  have he := hq.symm.trans (h _ _ hp)
  have hv := congrArg (fun r => match r with
    | Except.ok p => p.vals [97]
    | Except.error _ => []) he
  exact absurd hv (by decide)

end Ghajar.Softether
