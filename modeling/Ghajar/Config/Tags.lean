import Ghajar.Config.SameTunnel

/-!
# The tags of a core's configuration

A rule names an outbound and may name inbounds, and the stream settings of an outbound
may name another one to dial through. An outbound is looked at through its tag and
the tag it dials (`look`): what the flags of the options put into the list is `looks`,
and `NoDangling` follows from it flag by flag.
-/

namespace Ghajar

/-! ## The names in a configuration -/

def JSONObject.optText (o : JSONObject) (k : String) : Option String :=
  match o.opt k with
  | some (.str t) => some t
  | _ => none

def tagOf : Json → Option String
  | .obj o => JSONObject.optText o "tag"
  | _ => none

/-- The tag that stream settings dial through. -/
def dialerProxy : Json → Option String
  | .obj o => do
    let stream ← JSONObject.optJSONObject o "streamSettings"
    let sockopt ← JSONObject.optJSONObject stream "sockopt"
    JSONObject.optText sockopt "dialerProxy"
  | _ => none

def outboundTag : Json → Option String
  | .obj o => JSONObject.optText o "outboundTag"
  | _ => none

def inboundTags : Json → List String
  | .obj o =>
    match JSONObject.opt o "inboundTag" with
    | some (.arr items) => items.filterMap fun
      | .str t => some t
      | _ => none
    | some (.str t) => [t]
    | _ => []
  | _ => []

/-- The outbound `a` is dialled through `b`. -/
def DialsThrough (outbounds : JSONArray) (a b : Json) : Prop :=
  b ∈ outbounds ∧ ∃ t, dialerProxy a = some t ∧ tagOf b = some t

/-- Every tag that is named is there: an outbound's once, an inbound's at least once, and no way
from outbound to outbound goes on for ever. -/
structure NoDangling (inbounds outbounds rules : JSONArray) : Prop where
  outboundTag : ∀ r ∈ rules, ∀ t ∈ outboundTag r, (outbounds.map tagOf).count (some t) = 1
  dialerProxy : ∀ v ∈ inbounds ++ outbounds, ∀ t ∈ dialerProxy v,
    (outbounds.map tagOf).count (some t) = 1
  inboundTag : ∀ r ∈ rules, ∀ t ∈ inboundTags r, some t ∈ inbounds.map tagOf
  ends : ∀ v ∈ outbounds, Acc (fun b a => DialsThrough outbounds a b) v

namespace ConfigBuilder

/-! ## What an outbound shows -/

section Look

variable {p : Platform} {o : Options} {c : ProxyConfig} {label tag : String} {out : JSONObject}

/-- The tag of an outbound, and the one that it dials through. -/
def look (v : Json) : Option String × Option String := (tagOf v, dialerProxy v)

/-- An outbound that dials by itself, there where the condition holds. -/
def plainIf (b : Bool) (tag : String) : List (Option String × Option String) :=
  if b then [(some tag, none)] else []

/-- All outbounds but the first. -/
def looks (o : Options) (c : ProxyConfig) : List (Option String × Option String) :=
  plainIf o.fragment "fragment" ++ [(some "direct", none), (some "block", none)] ++
    plainIf (o.onion c) "tor-out" ++ plainIf (o.torBased c) "torbase" ++
    plainIf (o.chained c) "chain" ++ plainIf (o.dnsOn c) "dns-out"

/-- No sockopt stands in the stream settings of an outbound as it is built. -/
def Unhooked (out : JSONObject) : Prop :=
  ∀ stream, out.optJSONObject "streamSettings" = some stream → stream.opt "sockopt" = none

theorem transport_sockopt {net key : String} {settings : JSONObject}
    (h : transport c net = some (key, settings)) : key ≠ "sockopt" := by
  unfold transport at h
  dsimp only at h
  split at h <;> try split at h
  all_goals
    simp only [Option.some.injEq, Prod.mk.injEq, reduceCtorEq] at h
    try
      rw [← h.1]
      decide

theorem putSecurity_sockopt {stream : JSONObject} :
    (putSecurity c label stream).opt "sockopt" = stream.opt "sockopt" := by
  unfold putSecurity
  split <;> simp

theorem putMask_sockopt {net : String} {stream : JSONObject} :
    (putMask p c net stream).opt "sockopt" = stream.opt "sockopt" := by
  unfold putMask
  split
  · rfl
  · split <;> simp

theorem buildStream_sockopt : (buildStream p c label).opt "sockopt" = none := by
  unfold buildStream
  dsimp only
  rw [putMask_sockopt, putSecurity_sockopt]
  split
  · rename_i h
    rw [JSONObject.opt_put_ne (transport_sockopt h)]
    simp
  · simp

theorem buildOutbound_unhooked (h : buildOutbound p c label = some out) : Unhooked out := by
  intro stream hs
  rcases buildOutbound_cases h with rfl | ⟨port, rfl⟩ | rfl | rfl
  · simp [buildWireguard, JSONObject.optJSONObject] at hs
  · simp [localSocks, JSONObject.optJSONObject] at hs
  · simp only [buildHysteria2, JSONObject.optJSONObject, JSONObject.opt_put_self,
      Option.some.injEq] at hs
    rw [← hs]
    simp
  · simp only [JSONObject.optJSONObject, JSONObject.opt_put_self, Option.some.injEq] at hs
    rw [← hs, buildStream_sockopt]

theorem buildOutbound_tag (h : buildOutbound p c label = some out) :
    out.opt "tag" = some (.str "proxy") := by
  rcases buildOutbound_cases h with rfl | ⟨port, rfl⟩ | rfl | rfl
  · simp [buildWireguard]
  · simp [localSocks]
  · simp [buildHysteria2]
  · simp

theorem look_eq (h : out.opt "tag" = some (.str tag)) (hu : Unhooked out) :
    look (.obj out) = (some tag, none) := by
  have ht : tagOf (.obj out) = some tag := by
    simp only [tagOf, JSONObject.optText, h]
  have hd : dialerProxy (.obj out) = none := by
    simp only [dialerProxy]
    cases hs : out.optJSONObject "streamSettings" with
    | none => rfl
    | some stream =>
      have := hu stream hs
      simp [JSONObject.optJSONObject, this]
  rw [look, ht, hd]

theorem look_plain (h : out.opt "tag" = some (.str tag))
    (hs : out.opt "streamSettings" = none) : look (.obj out) = (some tag, none) :=
  look_eq h fun stream hv => by simp [JSONObject.optJSONObject, hs] at hv

theorem look_dialThrough (h : out.opt "tag" = some (.str tag)) (t : String) :
    look (.obj (dialThrough out t)) = (some tag, some t) := by
  have ht : tagOf (.obj (dialThrough out t)) = some tag := by
    simp [tagOf, JSONObject.optText, dialThrough, h]
  have hd : dialerProxy (.obj (dialThrough out t)) = some t := by
    simp [dialerProxy, dialThrough, JSONObject.optJSONObject, JSONObject.optText]
  rw [look, ht, hd]

/-- What is put under another name than these two does not show. -/
theorem look_putIf {b : Bool} {k : String} {v : Json} (ht : k ≠ "tag")
    (hs : k ≠ "streamSettings") : look (.obj (out.putIf b k v)) = look (.obj out) := by
  simp [look, tagOf, dialerProxy, JSONObject.optText, JSONObject.optJSONObject,
    JSONObject.opt_putIf_ne ht, JSONObject.opt_putIf_ne hs]

/-- The server's own outbound dials by itself, or through one that stands in front of it. -/
theorem look_proxyOut (h : buildOutbound p c label = some out) :
    ∃ d, look (.obj (proxyOut o c out)) = (some "proxy", d) ∧
      ∀ t ∈ d, t = "chain" ∧ o.chained c = true ∨ t = "fragment" ∧ o.fragment = true := by
  have htag := buildOutbound_tag h
  unfold proxyOut
  dsimp only
  rw [look_putIf (by decide) (by decide)]
  split
  · rename_i hc
    refine ⟨some "chain", look_dialThrough htag _, ?_⟩
    rintro t ⟨⟩
    exact .inl ⟨rfl, hc⟩
  · split
    · rename_i hf
      refine ⟨some "fragment", look_dialThrough htag _, ?_⟩
      rintro t ⟨⟩
      exact .inr ⟨rfl, hf.1⟩
    · exact ⟨none, look_eq htag (buildOutbound_unhooked h), by simp⟩

theorem look_base {base : Option ProxyConfig} {a : JSONArray}
    (h : baseOut p base label tag = some a) : a.map look = plainIf base.isSome tag := by
  cases base with
  | none =>
    obtain rfl := Option.some.inj h
    rfl
  | some b =>
    obtain ⟨built, hb, rfl⟩ := Option.map_eq_some_iff.1 h
    have hu : Unhooked (built.put "tag" tag) := by
      intro stream hs
      apply buildOutbound_unhooked hb stream
      rw [← hs]
      simp [JSONObject.optJSONObject]
    simp [plainIf, look_eq JSONObject.opt_put_self hu]

theorem look_only {b : Bool} (h : look (.obj out) = (some tag, none)) :
    (only b out).map look = plainIf b tag := by
  cases b
  · rfl
  · simp [only, plainIf, h]

theorem look_directOut : look (.obj (directOut p o)) = (some "direct", none) := by
  unfold directOut
  split <;> exact look_plain (by simp) (by simp)

theorem torBased_eq :
    (if c.protocol = "tor" then o.torBase else none).isSome = o.torBased c := by
  unfold Options.torBased
  split <;> simp [*]

theorem chained_eq : (if o.chained c then o.chainBase else none).isSome = o.chained c := by
  unfold Options.chained
  cases o.chainBase with
  | none => rfl
  | some b => by_cases h : b.id = c.id <;> simp [h]

end Look

/-! ## The whole -/

section Whole

variable {p : Platform} {hosts : Hosts} {o : Options} {c : ProxyConfig} {draw : Labels}
  {out : JSONArray}

/-- **The outbounds, as they look**: the first one is the proxy, and only it may dial through
another, which the flags put in the list. -/
theorem outbounds_look (h : outbounds p o c draw = some out) :
    ∃ d, out.map look = (some "proxy", d) :: looks o c ∧
      ∀ t ∈ d, t = "chain" ∧ o.chained c = true ∨ t = "fragment" ∧ o.fragment = true := by
  unfold outbounds at h
  obtain ⟨built, hb, h⟩ := Option.bind_eq_some_iff.1 h
  obtain ⟨torbase, ht, h⟩ := Option.bind_eq_some_iff.1 h
  obtain ⟨chain, hc, h⟩ := Option.bind_eq_some_iff.1 h
  have hmain : ∃ d, look (.obj (if o.directOnly then freedomOut else proxyOut o c built)) =
      (some "proxy", d) ∧
      ∀ t ∈ d, t = "chain" ∧ o.chained c = true ∨ t = "fragment" ∧ o.fragment = true := by
    split
    · exact ⟨none, look_plain (by simp [freedomOut]) (by simp [freedomOut]), by simp⟩
    · exact look_proxyOut hb
  obtain ⟨d, hd, hdt⟩ := hmain
  refine ⟨d, ?_, hdt⟩
  have hfrag : look (.obj (fragmentOut o)) = (some "fragment", none) :=
    look_plain (by simp [fragmentOut]) (by simp [fragmentOut])
  have hblock : look (.obj (JSONObject.put [] "tag" "block" |>.put "protocol" "blackhole")) =
      (some "block", none) := look_plain (by simp) (by simp)
  have htor : look (.obj torOut) = (some "tor-out", none) :=
    look_plain (by simp [torOut]) (by simp [torOut])
  have hdns : look (.obj (JSONObject.put [] "tag" "dns-out" |>.put "protocol" "dns")) =
      (some "dns-out", none) := look_plain (by simp) (by simp)
  rw [← Option.some.inj h]
  simp only [List.map_append, List.map_cons, List.map_nil, List.cons_append, List.nil_append,
    hd, look_only hfrag, look_directOut, hblock, look_only htor, look_base ht, torBased_eq,
    look_base hc, chained_eq, look_only hdns, looks]

/-- The inbounds, as they look. -/
def inboundLooks (o : Options) (c : ProxyConfig) : List (Option String × Option String) :=
  [(some "tun-in", none), (some "socks-in", none)] ++ plainIf o.shareAuthed "http-share-in" ++
    plainIf (c.protocol == "tor" || o.onion c) "tor-in"

theorem inbounds_look : (inbounds p o c).map look = inboundLooks o c := by
  have htun : look (.obj (tunIn o c)) = (some "tun-in", none) := by
    refine look_plain ?_ ?_ <;> simp [tunIn]
  have hsocks : look (.obj (socksIn p o)) = (some "socks-in", none) := by
    refine look_plain ?_ ?_ <;> simp [socksIn]
  have hhttp : look (.obj (httpShareIn p o)) = (some "http-share-in", none) := by
    refine look_plain ?_ ?_ <;> simp [httpShareIn]
  have htor : look (.obj torIn) = (some "tor-in", none) := by
    refine look_plain ?_ ?_ <;> simp [torIn]
  unfold inbounds inboundLooks
  simp only [List.map_append, List.map_cons, List.map_nil, htun, hsocks, look_only hhttp,
    look_only htor]

/-- The outbound that a rule names, and the inbounds. -/
def aim (r : Json) : Option String × List String := (outboundTag r, inboundTags r)

/-- The rules, as they aim. -/
def aims (o : Options) (c : ProxyConfig) : List (Option String × List String) :=
  (if o.shareAuthed then [(some "block", ["socks-in", "http-share-in"]),
    (some "proxy", ["socks-in", "http-share-in"])] else []) ++
    (if o.onion c then [(some "tor-out", [])] else []) ++
    (if o.torBased c then [(some "torbase", ["tor-in"])] else []) ++
    (if o.dnsOn c then [(some "dns-out", []), (some "block", [])] else []) ++
    (if o.adBlock then [(some "block", []), (some "block", [])] else []) ++
    (if o.youtubeDirect then [(some "direct", [])] else []) ++
    (if o.splitRouting then [(some "direct", []), (some "direct", [])] else []) ++
    [(some "proxy", ["tun-in", "socks-in"] ++
      if o.shareAuthed then ["http-share-in"] else [])]

theorem rules_aim : (rules hosts o c).map aim = aims o c := by
  have hshare : shareRules.map aim = [(some "block", ["socks-in", "http-share-in"]),
      (some "proxy", ["socks-in", "http-share-in"])] := rfl
  have hdns : (dnsRules hosts).map aim = [(some "dns-out", []), (some "block", [])] := rfl
  have had : (adRules hosts).map aim = [(some "block", []), (some "block", [])] := rfl
  have hsplit : splitRules.map aim = [(some "direct", []), (some "direct", [])] := rfl
  have honly {b : Bool} {r : JSONObject} {a : Option String × List String}
      (h : aim (.obj r) = a) : (only b r).map aim = if b then [a] else [] := by
    cases b
    · rfl
    · exact congrArg (fun a => [a]) h
  have honion := honly (b := o.onion c) (a := (some "tor-out", [])) (r := field.put "domain"
    (.arr ["regexp:\\.onion$"]) |>.put "outboundTag" "tor-out") rfl
  have htor := honly (b := o.torBased c) (a := (some "torbase", ["tor-in"]))
    (r := field.put "inboundTag" (.arr ["tor-in"]) |>.put "outboundTag" "torbase") rfl
  have hyoutube := honly (b := o.youtubeDirect) (a := (some "direct", [])) (r := youtubeRule) rfl
  unfold rules aims
  simp only [List.map_append, apply_ite (List.map aim), hshare, honion, htor, hdns, had,
    hyoutube, hsplit, List.map_nil]
  cases o.shareAuthed <;> rfl

/-! ## The law -/

theorem count_plainIf {b : Bool} {tag t : String} :
    ((plainIf b tag).map Prod.fst).count (some t) = if b = true ∧ tag = t then 1 else 0 := by
  cases b
  · rfl
  · by_cases h : tag = t <;> simp [plainIf, h]

/-- How often a tag stands in the list of outbounds. -/
theorem count_looks {d : Option String} {t : String} :
    (((some "proxy", d) :: looks o c).map Prod.fst).count (some t) =
      (if "proxy" = t then 1 else 0) + (if o.fragment = true ∧ "fragment" = t then 1 else 0) +
      ((if "direct" = t then 1 else 0) + if "block" = t then 1 else 0) +
      (if o.onion c = true ∧ "tor-out" = t then 1 else 0) +
      (if o.torBased c = true ∧ "torbase" = t then 1 else 0) +
      (if o.chained c = true ∧ "chain" = t then 1 else 0) +
      if o.dnsOn c = true ∧ "dns-out" = t then 1 else 0 := by
  simp only [looks, List.map_cons, List.map_append, List.map_nil, List.count_cons,
    List.count_append, List.count_nil, count_plainIf, beq_iff_eq, Option.some.injEq]
  omega

theorem aims_outbound {d : Option String} : ∀ a ∈ aims o c, ∀ t ∈ a.1,
    (((some "proxy", d) :: looks o c).map Prod.fst).count (some t) = 1 := by
  intro a ha t ht
  rw [count_looks]
  simp only [aims, List.mem_append, List.mem_ite_nil_right, List.mem_cons, List.not_mem_nil,
    or_false] at ha
  rcases ha with ((((((⟨-, rfl | rfl⟩ | ⟨h, rfl⟩) | ⟨h, rfl⟩) | ⟨h, rfl | rfl⟩) |
    ⟨-, rfl | rfl⟩) | ⟨-, rfl⟩) | ⟨-, rfl | rfl⟩) | rfl
  all_goals
    cases ht
    simp [*]

theorem aims_inbound : ∀ a ∈ aims o c, ∀ t ∈ a.2, some t ∈ (inboundLooks o c).map Prod.fst := by
  have hbased : o.torBased c = true → (c.protocol == "tor") = true := fun h =>
    (Bool.and_eq_true_iff.1 h).1
  intro a ha t ht
  simp only [aims, List.mem_append, List.mem_ite_nil_right, List.mem_cons, List.not_mem_nil,
    or_false] at ha
  rcases ha with ((((((⟨h, rfl | rfl⟩ | ⟨-, rfl⟩) | ⟨h, rfl⟩) | ⟨-, rfl | rfl⟩) |
    ⟨-, rfl | rfl⟩) | ⟨-, rfl⟩) | ⟨-, rfl | rfl⟩) | rfl
  all_goals
    simp only [List.mem_cons, List.not_mem_nil, or_false, List.mem_append,
      List.mem_ite_nil_right] at ht
  · rcases ht with rfl | rfl <;> simp [inboundLooks, plainIf, h]
  · rcases ht with rfl | rfl <;> simp [inboundLooks, plainIf, h]
  · subst ht
    simp [inboundLooks, plainIf, hbased h]
  · rcases ht with (rfl | rfl) | ⟨h, rfl⟩ <;> simp [inboundLooks, plainIf, *]

/-- What stands behind the first outbound dials by itself, and is not called the proxy. -/
theorem mem_looks {l : Option String × Option String} (h : l ∈ looks o c) :
    l.2 = none ∧ l.1 ≠ some "proxy" := by
  have hif {b : Bool} {tag : String} (hm : l ∈ plainIf b tag) : l = (some tag, none) :=
    List.mem_singleton.1 (List.mem_ite_nil_right.1 hm).2
  simp only [looks, List.mem_append, List.mem_cons, List.not_mem_nil, or_false] at h
  rcases h with ((((h | rfl | rfl) | h) | h) | h) | h
  · exact hif h ▸ by decide
  · decide
  · decide
  · exact hif h ▸ by decide
  · exact hif h ▸ by decide
  · exact hif h ▸ by decide
  · exact hif h ▸ by decide

variable {d : Option String}

/-- Where only the first outbound dials through another, and through none of its own name, every
way ends. -/
theorem dials_end (hl : out.map look = (some "proxy", d) :: looks o c)
    (hd : ∀ t ∈ d, t ≠ "proxy") {v : Json} (hv : v ∈ out) :
    Acc (fun b a => DialsThrough out a b) v := by
  have hlook {v : Json} (hv : v ∈ out) : look v = (some "proxy", d) ∨ look v ∈ looks o c :=
    List.mem_cons.1 (hl ▸ List.mem_map_of_mem hv)
  have hplain {v : Json} (h : look v ∈ looks o c) : Acc (fun b a => DialsThrough out a b) v := by
    refine .intro v ?_
    rintro b ⟨-, t, ht, -⟩
    have hn : dialerProxy v = none := (mem_looks h).1
    rw [hn] at ht
    cases ht
  rcases hlook hv with h | h
  · refine .intro v ?_
    rintro b ⟨hb, t, ht, hbt⟩
    obtain rfl : dialerProxy v = d := congrArg Prod.snd h
    rcases hlook hb with h' | h'
    · -- the one dialled is not the first one again
      have htag : tagOf b = some "proxy" := congrArg Prod.fst h'
      exact absurd (Option.some.inj (hbt.symm.trans htag)) (hd t ht)
    · exact hplain h'
  · exact hplain h

theorem noDangling (hl : out.map look = (some "proxy", d) :: looks o c)
    (hd : ∀ t ∈ d, t = "chain" ∧ o.chained c = true ∨ t = "fragment" ∧ o.fragment = true) :
    NoDangling (inbounds p o c) out (rules hosts o c) := by
  have hout : out.map tagOf = ((some "proxy", d) :: looks o c).map Prod.fst := by
    rw [← hl, List.map_map]
    rfl
  have hin : (inbounds p o c).map tagOf = (inboundLooks o c).map Prod.fst := by
    rw [← inbounds_look (p := p), List.map_map]
    rfl
  have haim {r : Json} (hr : r ∈ rules hosts o c) : aim r ∈ aims o c :=
    rules_aim ▸ List.mem_map_of_mem hr
  refine ⟨fun r hr t ht => ?_, fun v hv t ht => ?_, fun r hr t ht => ?_, fun v hv => ?_⟩
  · rw [hout]
    exact aims_outbound (aim r) (haim hr) t ht
  · rw [hout, count_looks]
    rcases List.mem_append.1 hv with hv | hv
    · -- no inbound dials
      have hm : look v ∈ inboundLooks o c := inbounds_look (p := p) ▸ List.mem_map_of_mem hv
      have hn : dialerProxy v = none := by
        simp only [inboundLooks, plainIf, List.mem_append, List.mem_ite_nil_right,
          List.mem_cons, List.not_mem_nil, or_false] at hm
        rcases hm with ((h | h) | ⟨-, h⟩) | ⟨-, h⟩ <;> exact congrArg Prod.snd h
      rw [hn] at ht
      cases ht
    · have hm : look v ∈ (some "proxy", d) :: looks o c := hl ▸ List.mem_map_of_mem hv
      rcases List.mem_cons.1 hm with h | h
      · obtain rfl : dialerProxy v = d := congrArg Prod.snd h
        rcases hd t ht with ⟨rfl, hc⟩ | ⟨rfl, hf⟩ <;> simp [*]
      · have hn : dialerProxy v = none := (mem_looks h).1
        rw [hn] at ht
        cases ht
  · rw [hin]
    exact aims_inbound (aim r) (haim hr) t ht
  · refine dials_end hl (fun t ht => ?_) hv
    rcases hd t ht with ⟨rfl, -⟩ | ⟨rfl, -⟩ <;> decide

end Whole

/-- **Whatever is set, no tag of a core's configuration dangles.** -/
theorem build_noDangling (p : Platform) (hosts : Hosts) (c : ProxyConfig) (o : Options)
    (draw : Labels) (root : JSONObject) (h : build p hosts c o draw = some root) :
    ∃ ins outs rs, root.optJSONArray "inbounds" = some ins ∧
      root.optJSONArray "outbounds" = some outs ∧ rulesOf root = some rs ∧
      NoDangling ins outs rs := by
  obtain ⟨out, ho, rfl⟩ := Option.map_eq_some_iff.1 h
  obtain ⟨d, hl, hd⟩ := outbounds_look ho
  refine ⟨inbounds p o c, out, rules hosts o c, ?_, ?_, ?_, noDangling hl hd⟩
  · simp [root, JSONObject.optJSONArray]
  · simp [root, JSONObject.optJSONArray]
  · simp [root, rulesOf, JSONObject.optJSONObject, JSONObject.optJSONArray]

/-- A server behind another one, shared, fragmented and with onion routing. -/
theorem everything_set :
    let o : Options := { fragment := true, onionRouting := true, shareOnLan := true, mux := true
                         shareUser := "u", sharePass := "p", encryptedDns := true
                         chainBase := some frontServer }
    ∃ root, build plainWorld.platform plainWorld.hosts backServer o noLabels = some root ∧
      ∃ ins outs rs, root.optJSONArray "inbounds" = some ins ∧
        root.optJSONArray "outbounds" = some outs ∧ rulesOf root = some rs ∧
        NoDangling ins outs rs := by
  intro o
  cases h : build plainWorld.platform plainWorld.hosts backServer o noLabels with
  | none => exact absurd h (by decide)
  | some root => exact ⟨root, rfl, build_noDangling _ _ _ _ _ root h⟩

end ConfigBuilder

end Ghajar
