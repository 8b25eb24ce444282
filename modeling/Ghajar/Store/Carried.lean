import Mathlib
import Ghajar.Store.MergeOnce

/-!
# What the user chose, after a refresh

`Refreshed` is what `upsertSubscription` is for: nothing but its group is touched, and a
server that is fetched again is the one it was. The identity matches and the id is carried
over; `favorite` is not. And as only one of the old servers of a signature is remembered,
the others are never found again.
-/

namespace Ghajar.Groups

open Ghajar

/-- What stands in a group, in order. -/
def members (s : State) (subId : String) : List ProxyConfig :=
  s.configs.filter fun c => c.subId = subId

/-- One is the other, but for what the user sets and what the store gives it. -/
def SameServer (f g : ProxyConfig) : Prop :=
  { g with id := f.id, subId := f.subId, favorite := f.favorite } = f

/-- Every server that is fetched takes over one of the old ones that is the same, if any is left,
and each of these goes once. -/
inductive Carries (same : ProxyConfig → String) :
    List ProxyConfig → List ProxyConfig → List ProxyConfig → Prop where
  | nil (old : List ProxyConfig) : Carries same old [] []
  | kept {old fetched after : List ProxyConfig} {c f g : ProxyConfig} :
      c ∈ old → same c = same f → g.id = c.id → g.favorite = c.favorite →
      Carries same (old.erase c) fetched after → Carries same old (f :: fetched) (g :: after)
  | fresh {old fetched after : List ProxyConfig} {f g : ProxyConfig} :
      (∀ c ∈ old, same c ≠ same f) → Carries same old fetched after →
      Carries same old (f :: fetched) (g :: after)

structure Refreshed (signature : ProxyConfig → String) (s : State) (sub : Subscription)
    (fetched : List ProxyConfig) : Prop where
  others : ((s.upsertSubscription signature sub fetched).configs.filter fun c => c.subId ≠ sub.id) =
    s.configs.filter fun c => c.subId ≠ sub.id
  otherGroups : ((s.upsertSubscription signature sub fetched).subscriptions.filter
    fun g => g.id ≠ sub.id) = s.subscriptions.filter fun g => g.id ≠ sub.id
  group : ((s.upsertSubscription signature sub fetched).subscriptions.filter
    fun g => g.id = sub.id) = [sub]
  place : sub.id ∈ subIds s.subscriptions →
    (s.upsertSubscription signature sub fetched).subscriptions.findIdx (fun g => g.id = sub.id) =
      s.subscriptions.findIdx fun g => g.id = sub.id
  members : List.Forall₂ SameServer fetched
    (members (s.upsertSubscription signature sub fetched) sub.id)
  carried : Carries (identity signature sub) (Groups.members s sub.id) fetched
    (Groups.members (s.upsertSubscription signature sub fetched) sub.id)

/-- The ones of a signature. -/
def ofSig (same : ProxyConfig → String) (k : String) (l : List ProxyConfig) : List ProxyConfig :=
  l.filter fun c => same c = k

/-- A server that is fetched under an id of the group is the only one of its signature. -/
def OwnIds (same : ProxyConfig → String) (old fetched : List ProxyConfig) : Prop :=
  ∀ f ∈ fetched, f.id ∈ ids old → (ofSig same (same f) fetched).length = 1

/-- Of no signature there are several both before and after, and what comes first comes with the
flag of the last there was. -/
def Matched (same : ProxyConfig → String) (old fetched : List ProxyConfig) : Prop :=
  ∀ k, ((ofSig same k old).length ≤ 1 ∨ (ofSig same k fetched).length ≤ 1) ∧
    ∀ f ∈ (ofSig same k fetched).head?, ∀ c ∈ (ofSig same k old).getLast?, f.favorite = c.favorite

/-! ## The groups -/

section Place

variable {p : Subscription → Bool} {a : Subscription}

theorem findIdx_le_filter (l : List Subscription) :
    l.findIdx p ≤ (l.filter fun b => !p b).length := by
  induction l with
  | nil => simp
  | cons b l ih =>
    cases hb : p b with
    | true => simp [List.findIdx_cons, hb]
    | false => simpa [List.findIdx_cons, hb] using ih

/-- In the place of the first one, all of them go for one. -/
theorem insertIdx_findIdx (ha : p a) (l : List Subscription) :
    ∃ r, (l.filter fun b => !p b).insertIdx (l.findIdx p) a = r ∧
      (r.filter fun b => !p b) = (l.filter fun b => !p b) ∧ r.filter p = [a] ∧
        r.findIdx p = l.findIdx p := by
  refine ⟨_, rfl, ?_⟩
  induction l with
  | nil => simp [ha, List.findIdx_cons]
  | cons b l ih =>
    cases hb : p b with
    | true => simp [List.findIdx_cons, hb, ha, List.filter_filter]
    | false =>
      simp only [List.findIdx_cons, hb, List.filter_cons, Bool.not_false, if_true, cond_false,
        List.insertIdx_succ_cons]
      simpa using ih

end Place

/-! ## The servers -/

section Carried

variable {same : ProxyConfig → String} {subId k : String} {f c : ProxyConfig}
  {old rem fetched l : List ProxyConfig}

theorem ofSig_cons_self : ofSig same (same f) (f :: l) = f :: ofSig same (same f) l := by
  simp [ofSig]

theorem ofSig_cons_ne (h : same f ≠ k) : ofSig same k (f :: l) = ofSig same k l := by
  simp [ofSig, h]

theorem ofSig_filter_self :
    ofSig same (same f) (l.filter fun c => same c ≠ same f) = [] := by
  simp [ofSig, List.filter_filter]

theorem ofSig_filter_ne (h : same f ≠ k) :
    ofSig same k (l.filter fun c => same c ≠ same f) = ofSig same k l := by
  rw [ofSig, List.filter_filter]
  refine List.filter_congr fun c _ => ?_
  by_cases hc : same c = k
  · simp [hc, h.symm]
  · simp [hc]

theorem mem_ofSig : c ∈ ofSig same k l ↔ c ∈ l ∧ same c = k := by
  rw [ofSig, List.mem_filter, decide_eq_true_eq]

theorem ofSig_erase : ofSig same k (l.erase c) = (ofSig same k l).erase c :=
  (List.erase_filter).symm

theorem ofSig_erase_ne (h : same c ≠ k) : ofSig same k (l.erase c) = ofSig same k l :=
  ofSig_erase.trans (List.erase_of_not_mem fun hc => h (mem_ofSig.1 hc).2)

/-- What is left of one signature while servers are fetched: the ones that are searched, the ones
that were not taken over, and the ones that come. -/
def FitsAt (old rem fetched : List ProxyConfig) : Prop :=
  (old = [] → rem = [] ∨ fetched = []) ∧ (old ≠ [] → rem.length ≤ 1 ∨ fetched.length ≤ 1) ∧
    ∀ f ∈ fetched.head?, ∀ c ∈ old.head?, f.favorite = c.favorite

def Fits (same : ProxyConfig → String) (old rem fetched : List ProxyConfig) : Prop :=
  ∀ k, FitsAt (ofSig same k old) (ofSig same k rem) (ofSig same k fetched)

/-- A signature that no old one has. -/
theorem fits_cons_none (hold : ofSig same (same f) old = []) :
    Fits same old rem (f :: fetched) ↔
      ofSig same (same f) rem = [] ∧ Fits same old rem fetched := by
  constructor
  · intro h
    have hself := h (same f)
    rw [hold, ofSig_cons_self] at hself
    have hrem : ofSig same (same f) rem = [] := (hself.1 rfl).resolve_right (List.cons_ne_nil _ _)
    refine ⟨hrem, fun k => ?_⟩
    by_cases hk : same f = k
    · subst hk
      rw [hold, hrem]
      exact ⟨fun _ => .inl rfl, fun h => absurd rfl h, fun _ _ _ hc => by cases hc⟩
    · have := h k
      rwa [ofSig_cons_ne hk] at this
  · rintro ⟨hrem, h⟩ k
    by_cases hk : same f = k
    · subst hk
      rw [hold, hrem]
      exact ⟨fun _ => .inl rfl, fun h => absurd rfl h, fun _ _ _ hc => by cases hc⟩
    · rw [ofSig_cons_ne hk]
      exact h k

theorem fits_cons_some (hold : (ofSig same (same f) old).head? = some c) (hc : c ∈ rem) :
    Fits same old rem (f :: fetched) ↔ f.favorite = c.favorite ∧
      Fits same (old.filter fun d => same d ≠ same f) (rem.erase c) fetched := by
  have hcsig : c ∈ ofSig same (same f) old := List.mem_of_head? hold
  have hsame : same c = same f := (mem_ofSig.1 hcsig).2
  have hcrem : c ∈ ofSig same (same f) rem := mem_ofSig.2 ⟨hc, hsame⟩
  have hlen : (ofSig same (same f) rem).length =
      ((ofSig same (same f) rem).erase c).length + 1 := by
    have := List.length_pos_of_mem hcrem
    rw [List.length_erase_of_mem hcrem]
    omega
  -- the other signatures are as they were
  have hother {k : String} (hk : same f ≠ k) : FitsAt (ofSig same k old) (ofSig same k rem)
      (ofSig same k (f :: fetched)) ↔ FitsAt (ofSig same k (old.filter fun d => same d ≠ same f))
        (ofSig same k (rem.erase c)) (ofSig same k fetched) := by
    rw [ofSig_cons_ne hk, ofSig_filter_ne hk, ofSig_erase_ne (hsame ▸ hk)]
  have hself : FitsAt (ofSig same (same f) old) (ofSig same (same f) rem)
      (ofSig same (same f) (f :: fetched)) ↔ f.favorite = c.favorite ∧
        FitsAt (ofSig same (same f) (old.filter fun d => same d ≠ same f))
          (ofSig same (same f) (rem.erase c)) (ofSig same (same f) fetched) := by
    rw [ofSig_cons_self, ofSig_filter_self, ofSig_erase]
    have hne : ofSig same (same f) old ≠ [] := List.ne_nil_of_mem hcsig
    simp only [FitsAt, hold, hlen, ← List.length_eq_zero_iff, List.head?_cons, List.head?_nil,
      Option.mem_def, Option.some.injEq, forall_eq', List.length_cons, ne_eq,
      List.length_eq_zero_iff.not.2 hne, not_false_eq_true, false_implies, true_and,
      reduceCtorEq, implies_true, and_true, not_true_eq_false, forall_const]
    rw [and_comm]
    refine and_congr_right fun _ => or_congr ?_ ?_ <;> omega
  constructor
  · exact fun h => ⟨(hself.1 (h _)).1, fun k => if hk : same f = k then hk ▸ (hself.1 (h _)).2
      else (hother hk).1 (h k)⟩
  · rintro ⟨hfav, h⟩ k
    by_cases hk : same f = k
    · exact hk ▸ hself.2 ⟨hfav, h _⟩
    · exact (hother hk).2 (h k)

theorem filter_eq_of_ofSig (h : ofSig same (same f) old = []) :
    (old.filter fun d => same d ≠ same f) = old := by
  refine List.filter_eq_self.2 fun c hc => decide_eq_true fun hs => ?_
  exact List.eq_nil_iff_forall_not_mem.1 h c (mem_ofSig.2 ⟨hc, hs⟩)

/-- One turn of `tagged`. -/
theorem tagged_cons : tagged same subId old (f :: fetched) =
    { f with subId, id := ((ofSig same (same f) old).head?.map (·.id)).getD f.id } ::
      tagged same subId (old.filter fun c => same c ≠ same f) fetched := by
  rw [tagged, ofSig, List.head?_filter]

theorem carries_of_fits (hsub : ∀ c ∈ old, c ∈ rem) (h : Fits same old rem fetched) :
    Carries same rem fetched (tagged same subId old fetched) := by
  induction fetched generalizing old rem with
  | nil => exact .nil _
  | cons f fetched ih =>
    rw [tagged_cons]
    cases hold : (ofSig same (same f) old).head? with
    | none =>
      rw [List.head?_eq_none_iff] at hold
      obtain ⟨hrem, h⟩ := (fits_cons_none hold).1 h
      rw [filter_eq_of_ofSig hold]
      refine .fresh (fun c hc hs => ?_) (ih hsub h)
      exact List.eq_nil_iff_forall_not_mem.1 hrem c (mem_ofSig.2 ⟨hc, hs⟩)
    | some c =>
      obtain ⟨hc, hs⟩ := mem_ofSig.1 (List.mem_of_head? hold)
      obtain ⟨hfav, h⟩ := (fits_cons_some hold (hsub c hc)).1 h
      refine .kept (hsub c hc) hs rfl hfav (ih (fun d hd => ?_) h)
      obtain ⟨hd, hne⟩ := List.mem_filter.1 hd
      refine (List.mem_erase_of_ne ?_).2 (hsub d hd)
      rintro rfl
      simp [hs] at hne

/-- A server that takes over no id has none of an old one that is the same. -/
def Apart (same : ProxyConfig → String) (old rem fetched : List ProxyConfig) : Prop :=
  ∀ f ∈ fetched, ofSig same (same f) old = [] ∨ 2 ≤ (ofSig same (same f) fetched).length →
    ∀ c ∈ rem, same c = same f → c.id ≠ f.id

theorem Apart.tail {old' rem' : List ProxyConfig} (h : Apart same old rem (f :: fetched))
    (hold : ∀ k, same f ≠ k → ofSig same k old' = [] → ofSig same k old = [])
    (hrem : ∀ c ∈ rem', c ∈ rem) : Apart same old' rem' fetched := by
  intro e he hcond c hc hs
  refine h e (.tail _ he) ?_ c (hrem c hc) hs
  by_cases hk : same f = same e
  · have hpos : 0 < (ofSig same (same e) fetched).length :=
      List.length_pos_of_mem (mem_ofSig.2 ⟨he, rfl⟩)
    refine .inr ?_
    rw [← hk] at hpos ⊢
    rw [ofSig_cons_self, List.length_cons]
    omega
  · rw [ofSig_cons_ne hk]
    exact hcond.imp_left (hold _ hk)

theorem fits_of_carries (hn : (ids rem).Nodup) (hsub : ∀ c ∈ old, c ∈ rem)
    (ha : Apart same old rem fetched)
    (h : Carries same rem fetched (tagged same subId old fetched)) : Fits same old rem fetched := by
  induction fetched generalizing old rem with
  | nil =>
    exact fun k => ⟨fun _ => .inr rfl, fun _ => .inr (Nat.zero_le 1), fun _ hf => by cases hf⟩
  | cons f fetched ih =>
    rw [tagged_cons] at h
    cases hold : (ofSig same (same f) old).head? with
    | none =>
      rw [hold] at h
      rw [List.head?_eq_none_iff] at hold
      rw [filter_eq_of_ofSig hold] at h
      cases h with
      | kept hc hs hid hfav h => exact absurd hid.symm (ha f (.head _) (.inl hold) _ hc hs)
      | fresh hne h =>
        refine (fits_cons_none hold).2 ⟨?_, ih hn hsub (ha.tail (fun _ _ h => h) fun _ h => h) h⟩
        refine List.eq_nil_iff_forall_not_mem.2 fun c hc => ?_
        obtain ⟨hc, hs⟩ := mem_ofSig.1 hc
        exact hne c hc hs
    | some c =>
      obtain ⟨hc, hs⟩ := mem_ofSig.1 (List.mem_of_head? hold)
      rw [hold] at h
      cases h with
      | fresh hne h => exact absurd hs (hne c (hsub c hc))
      | @kept _ _ _ d _ _ hd hds hid hfav h =>
        -- the ids of the group tell which one was taken over
        obtain rfl : d = c := eq_of_ids hn hd (hsub c hc) hid.symm
        refine (fits_cons_some hold hd).2 ⟨hfav, ih ?_ (fun e he => ?_) (ha.tail ?_ ?_) h⟩
        · exact hn.sublist (List.erase_sublist.map _)
        · obtain ⟨he, hne⟩ := List.mem_filter.1 he
          refine (List.mem_erase_of_ne ?_).2 (hsub e he)
          rintro rfl
          simp [hs] at hne
        · exact fun k hk h => (ofSig_filter_ne hk).symm.trans h
        · exact fun e he => List.mem_of_mem_erase he

end Carried

/-! ## A refresh -/

section Refresh

variable {signature : ProxyConfig → String} {s : State} {sub : Subscription}
  {fetched : List ProxyConfig}

theorem tagged_sameServer {same : ProxyConfig → String} {subId : String} (old : List ProxyConfig) :
    List.Forall₂ SameServer fetched (tagged same subId old fetched) := by
  induction fetched generalizing old with
  | nil => exact .nil
  | cons f fetched ih => exact .cons rfl (ih _)

theorem others_eq :
    ((s.upsertSubscription signature sub fetched).configs.filter fun c => c.subId ≠ sub.id) =
      s.configs.filter fun c => c.subId ≠ sub.id := by
  unfold State.upsertSubscription
  dsimp only
  rw [List.filter_append, List.filter_filter]
  have hnone : ((tagged (identity signature sub) sub.id
      (s.configs.filter fun c => c.subId = sub.id).reverse fetched).filter
        fun c => c.subId ≠ sub.id) = [] := by
    refine List.filter_eq_nil_iff.2 fun c hc => ?_
    simp [tagged_subId c hc]
  rw [hnone, List.append_nil]
  simp

theorem members_upsert : members (s.upsertSubscription signature sub fetched) sub.id =
    tagged (identity signature sub) sub.id (members s sub.id).reverse fetched := by
  unfold State.upsertSubscription members
  dsimp only
  rw [List.filter_append, List.filter_filter]
  have hnone : (s.configs.filter fun c => decide (c.subId = sub.id) &&
      decide (c.subId ≠ sub.id)) = [] := by
    refine List.filter_eq_nil_iff.2 fun c hc => ?_
    simp
  rw [hnone, List.nil_append, List.filter_eq_self]
  exact fun c hc => decide_eq_true (tagged_subId c hc)

theorem subscriptions_upsert :
    ∃ r, (s.upsertSubscription signature sub fetched).subscriptions = r ∧
      (r.filter fun g => g.id ≠ sub.id) = (s.subscriptions.filter fun g => g.id ≠ sub.id) ∧
        (r.filter fun g => g.id = sub.id) = [sub] ∧ (sub.id ∈ subIds s.subscriptions →
          r.findIdx (fun g => g.id = sub.id) = s.subscriptions.findIdx fun g => g.id = sub.id) := by
  refine ⟨_, rfl, ?_⟩
  have hnot : (fun g : Subscription => decide (g.id ≠ sub.id)) =
      fun g => !decide (g.id = sub.id) := by
    funext g
    exact decide_not
  unfold State.upsertSubscription
  dsimp only
  simp only [hnot]
  split
  · obtain ⟨r, hr, hother, hself, hidx⟩ := @insertIdx_findIdx (fun g => decide (g.id = sub.id)) sub
      (decide_eq_true rfl) s.subscriptions
    rw [Nat.min_eq_left (findIdx_le_filter _), hr]
    exact ⟨hother, hself, fun _ => hidx⟩
  · rename_i hlt
    have hnone : sub.id ∉ subIds s.subscriptions := by
      intro hm
      obtain ⟨g, hg, hid⟩ := mem_subIds.1 hm
      exact hlt (List.findIdx_lt_length_of_exists ⟨g, hg, decide_eq_true hid⟩)
    refine ⟨by simp [List.filter_filter], ?_, fun h => absurd h hnone⟩
    simp [List.filter_filter]

theorem fits_iff_matched {same : ProxyConfig → String} {old : List ProxyConfig} :
    Fits same old.reverse old fetched ↔ Matched same old fetched := by
  refine forall_congr' fun k => ?_
  have hrev : ofSig same k old.reverse = (ofSig same k old).reverse := List.filter_reverse
  simp only [FitsAt, hrev, List.head?_reverse, List.reverse_eq_nil_iff, ne_eq]
  constructor
  · rintro ⟨-, hlen, hfav⟩
    refine ⟨?_, hfav⟩
    by_cases h : ofSig same k old = []
    · exact .inl (by simp [h])
    · exact hlen h
  · rintro ⟨hlen, hfav⟩
    exact ⟨fun h => .inl h, fun _ => hlen, hfav⟩

/-- **When a refresh keeps what the user chose**: of no signature there are several servers both
before and after, and no flag has to be carried over. -/
theorem refreshed_iff_matched (signature : ProxyConfig → String) (s : State) (sub : Subscription)
    (fetched : List ProxyConfig) (hn : (ids (members s sub.id)).Nodup)
    (hown : OwnIds (identity signature sub) (members s sub.id) fetched) :
    Refreshed signature s sub fetched ↔
      Matched (identity signature sub) (members s sub.id) fetched := by
  rw [← fits_iff_matched]
  have hsub : ∀ c ∈ (members s sub.id).reverse, c ∈ members s sub.id :=
    fun c hc => List.mem_reverse.1 hc
  constructor
  · intro h
    refine fits_of_carries hn hsub (fun f hf hcond c hc hs hid => ?_) (members_upsert ▸ h.carried)
    rcases hcond with hnone | htwo
    · refine List.eq_nil_iff_forall_not_mem.1 hnone c (mem_ofSig.2 ⟨?_, hs⟩)
      exact List.mem_reverse.2 hc
    · have := hown f hf (mem_ids.2 ⟨c, hc, hid⟩)
      omega
  · intro h
    obtain ⟨_, rfl, hother, hself, hplace⟩ := @subscriptions_upsert signature s sub fetched
    refine ⟨others_eq, hother, hself, hplace, ?_, ?_⟩
    · rw [members_upsert]
      exact tagged_sameServer _
    · rw [members_upsert]
      exact carries_of_fits hsub h

end Refresh

/-! ## A favourite -/

theorem length_ofSig_le {same : ProxyConfig → String} {l : List ProxyConfig}
    (h : (l.map same).Nodup) (k : String) : (ofSig same k l).length ≤ 1 := by
  have := List.nodup_iff_count_le_one.1 h k
  rw [List.count, List.countP_map, List.countP_eq_length_filter] at this
  exact this

def bought : Subscription := { name := "bought", url := "https://example.com/s", id := "g1" }

def two : State := { device with configs := device.configs ++ [second] }

/-- Two servers come again under new ids, and a third one. -/
def again : List ProxyConfig :=
  [server "n1" "", { second with id := "n2" }, { server "n3" "" with port := 80 }]

theorem plain_refreshed : Refreshed sigOf two bought again := by
  refine (refreshed_iff_matched sigOf two bought again (by decide) ?_).2 fun k => ⟨.inl ?_, ?_⟩
  · exact fun f hf hid => absurd hid ((by decide : ∀ f ∈ again, f.id ∉ ids (members two "g1")) f hf)
  · exact length_ofSig_le (by decide) k
  · intro f hf c hc
    have hf := (mem_ofSig.1 (List.mem_of_head? hf)).1
    have hc := (mem_ofSig.1 (List.mem_of_getLast? hc)).1
    have hnew : ∀ f ∈ again, f.favorite = false := by decide
    have hold : ∀ c ∈ members two "g1", c.favorite = false := by decide
    rw [hnew f hf, hold c hc]

/-- The server of the group is a favourite. -/
def starred : State := { device with configs := [{ server "c1" "g1" with favorite := true }] }

/-- A favourite that is fetched again is one no more. -/
theorem favourite_lost : (ids (members starred "g1")).Nodup ∧
    OwnIds (identity sigOf bought) (members starred "g1") [server "n1" ""] ∧
      ¬Refreshed sigOf starred bought [server "n1" ""] := by
  have hn : (ids (members starred "g1")).Nodup := by decide
  refine ⟨hn, fun f hf hid => absurd hid ?_, fun h => ?_⟩
  · rw [List.mem_singleton.1 hf]
    decide
  · have hc := h.carried
    rw [members_upsert] at hc
    cases hc with
    | kept hc _ _ hfav _ =>
      rw [List.mem_singleton.1 hc] at hfav
      cases hfav
    | fresh hne _ => exact hne _ (.head _) rfl

end Ghajar.Groups
