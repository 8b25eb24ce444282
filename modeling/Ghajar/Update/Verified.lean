import Ghajar.Update.Flow

/-!
# Only the verified update is installed

`update_verified`: where downloads do not overlap and the offer does not change under
one (`careful`), a file that is ready or handed to the installer is the one published
for the release that is available, and is signed like the installed app; and a job
that is superseded touches nothing any more (`lawful`).
-/

namespace Ghajar.Update

open Run

variable {c : Checks}

/-- A file with the hash of the release, signed like the installed app. -/
def Good (c : Checks) (file : Option Bytes) (release : Option Release) : Prop :=
  ∃ bytes upd, file = some bytes ∧ release = some upd ∧ upd.apkSha256 = some (c.sha256 bytes) ∧
    c.signed bytes = true

structure Verified (c : Checks) (s : Sys) : Prop where
  ready : s.stage = .ready → ∃ file ∈ s.readyFile, Good c (s.disk.content file) s.available
  handed : ∀ h ∈ s.handed, Good c h.1 h.2

/-- A job that is not the last one changes neither the stage, nor the progress, nor a file. -/
def lawful (c : Checks) (s : Sys) : Act → Prop
  | .run k e => k + 1 < s.jobs.length → ∀ s' ∈ step c s (.run k e),
      s'.stage = s.stage ∧ s'.progress = s.progress ∧ s'.disk = s.disk
  | _ => True

/-- **The condition**: a download starts only when no job runs any more; the offer keeps its
hash while a job is active or its file is ready; it is cleared only while no job is active. -/
def careful (s : Sys) : Act → Prop
  | .start => s.launches.isSome = true → ∀ j ∈ s.jobs, j.running = false
  | .offer result =>
    (∀ j ∈ s.jobs, j.active = true → j.upd.apkSha256 = result.apkSha256) ∧
      (s.stage = .ready → s.available.map (·.version) = some result.version →
        s.available.map (·.apkSha256) = some result.apkSha256)
  | .clearIfInstalled newer => newer = false → ∀ j ∈ s.jobs, j.active = false
  | _ => True

instance (s : Sys) (a : Act) : Decidable (careful s a) := by
  unfold careful
  split <;> infer_instance

/-! ## The invariant -/

/-- What a job has found out about its file still holds. -/
def Verdict (c : Checks) (disk : Disk) (j : Job) : Prop :=
  match j.pc with
  | .signature checksum =>
    checksum = .ok → ∃ bytes, disk.content j.apk.dest = some bytes ∧
      j.upd.apkSha256 = some (c.sha256 bytes)
  | .decide checksum signature =>
    checksum = .ok → signature = .ok → ∃ bytes, disk.content j.apk.dest = some bytes ∧
      j.upd.apkSha256 = some (c.sha256 bytes) ∧ c.signed bytes = true
  | _ => True

structure Inv (c : Checks) (s : Sys) : Prop where
  last : ∀ (k : Nat) (j : Job), s.jobs[k]? = some j → j.running = true → k + 1 = s.jobs.length
  captured : ∀ j ∈ s.jobs, j.active = true →
    s.available.map (·.apkSha256) = some j.upd.apkSha256
  idle : s.stage = .ready → ∀ j ∈ s.jobs, j.running = false
  verdict : ∀ j ∈ s.jobs, j.running = true → Verdict c s.disk j
  verified : Verified c s

theorem active_running {j : Job} (h : j.active = true) : j.running = true := by
  simp only [Job.active, Bool.and_eq_true] at h
  exact h.1

/-- Only one job runs. -/
theorem Inv.others {s : Sys} (h : Inv c s) {k m : Nat} {j u : Job} (hj : s.jobs[k]? = some j)
    (hr : j.running = true) (hu : s.jobs[m]? = some u) (hm : m ≠ k) : u.running = false := by
  cases hur : u.running with
  | false => rfl
  | true =>
    have h1 := h.last k j hj hr
    have h2 := h.last m u hu hur
    omega

/-- The job that runs takes a step. -/
theorem Inv.moved {s s' : Sys} {k : Nat} {j j' : Job} (h : Inv c s) (hj : s.jobs[k]? = some j)
    (hr : j.running = true) (hjobs : s'.jobs = s.jobs.set k j') (hav : s'.available = s.available)
    (hupd : j'.upd = j.upd) (hcan : j'.cancelled = j.cancelled)
    (hidle : s'.stage = .ready → j'.running = false)
    (hver : j'.running = true → Verdict c s'.disk j') (hv : Verified c s') : Inv c s' := by
  have hget : ∀ {m : Nat} {u : Job}, s'.jobs[m]? = some u →
      (m = k ∧ u = j') ∨ (m ≠ k ∧ s.jobs[m]? = some u ∧ u.running = false) := by
    intro m u hu
    rw [hjobs] at hu
    by_cases hm : m = k
    · subst hm
      rw [List.getElem?_set_self (List.getElem?_eq_some_iff.1 hj).1] at hu
      exact .inl ⟨rfl, (Option.some.inj hu).symm⟩
    · rw [List.getElem?_set_ne (Ne.symm hm)] at hu
      exact .inr ⟨hm, hu, h.others hj hr hu hm⟩
  refine ⟨fun m u hu hur => ?_, fun u hu hua => ?_, fun hst u hu => ?_, fun u hu hur => ?_, hv⟩
  · rcases hget hu with ⟨rfl, -⟩ | ⟨-, -, hn⟩
    · rw [hjobs, List.length_set]
      exact h.last m j hj hr
    · rw [hn] at hur
      cases hur
  · obtain ⟨m, hm⟩ := List.getElem?_of_mem hu
    rcases hget hm with ⟨-, rfl⟩ | ⟨-, -, hn⟩
    · rw [hav, hupd]
      refine h.captured j (List.mem_of_getElem? hj) ?_
      simp only [Job.active, hcan, Bool.and_eq_true] at hua
      simp only [Job.active, Bool.and_eq_true]
      exact ⟨hr, hua.2⟩
    · rw [active_running hua] at hn
      cases hn
  · obtain ⟨m, hm⟩ := List.getElem?_of_mem hu
    rcases hget hm with ⟨-, rfl⟩ | ⟨-, -, hn⟩
    · exact hidle hst
    · exact hn
  · obtain ⟨m, hm⟩ := List.getElem?_of_mem hu
    rcases hget hm with ⟨-, rfl⟩ | ⟨-, -, hn⟩
    · exact hver hur
    · rw [hn] at hur
      cases hur

/-! ## The steps of a job -/

/-- While a job runs, nothing is ready. -/
theorem Inv.busy {s : Sys} (h : Inv c s) {k : Nat} {j : Job} (hj : s.jobs[k]? = some j)
    (hr : j.running = true) : s.stage ≠ .ready := fun hst => by
  rw [h.idle hst j (List.mem_of_getElem? hj)] at hr
  cases hr

/-- Where nothing is ready, a step that hands out no file promises nothing new. -/
theorem verified_busy {s s' : Sys} (h : Verified c s) (hst : s'.stage ≠ .ready)
    (hh : s'.handed = s.handed) : Verified c s' :=
  ⟨fun hr => absurd hr hst, by rw [hh]; exact h.handed⟩

section Job

variable {s : Sys} {k : Nat} {j : Job}

/-- A step of the download: the file is not verified yet. -/
theorem Inv.download (h : Inv c s) (hj : s.jobs[k]? = some j) (hr : j.running = true)
    (disk : Disk) (progress : Nat × Nat) {j' : Job} (hupd : j'.upd = j.upd)
    (hcan : j'.cancelled = j.cancelled) (hver : Verdict c disk j') :
    Inv c ({ s with disk := disk, progress := progress }.setJob k j') :=
  h.moved hj hr rfl rfl hupd hcan (fun hst => absurd hst (h.busy hj hr)) (fun _ => hver)
    (verified_busy h.verified (h.busy hj hr) rfl)

theorem abort_inv (h : Inv c s) (hj : s.jobs[k]? = some j) (hr : j.running = true) :
    Inv c (s.abort k j) :=
  h.download hj hr _ s.progress rfl rfl trivial

theorem moveTo_inv (h : Inv c s) (hj : s.jobs[k]? = some j) (hr : j.running = true)
    (throws : Bool) : Inv c (s.moveTo k j throws) := by
  unfold Sys.moveTo
  split
  · exact h.download hj hr _ s.progress rfl rfl trivial
  · simp only
    split
    · exact h.download hj hr _ s.progress rfl rfl trivial
    · exact h.download hj hr _ s.progress rfl rfl trivial

theorem resume_inv (h : Inv c s) (hj : s.jobs[k]? = some j) (hr : j.running = true)
    {f : Sys → Sys} (hf : j.cancelled = false → Inv c (f s)) : Inv c (s.resume k j f) := by
  unfold Sys.resume
  split
  · exact h.download hj hr _ s.progress rfl rfl trivial
  · rename_i hc
    exact hf (by simpa using hc)

theorem decide_inv (h : Inv c s) (hj : s.jobs[k]? = some j) {checksum signature : VerifyResult}
    (hpc : j.pc = .decide checksum signature) (hcan : j.cancelled = false) (canInstall : Bool) :
    Inv c (s.decide k j checksum signature canInstall) := by
  have hr : j.running = true := by simp [Job.running, hpc]
  have hact : j.active = true := by simp [Job.active, hr, hcan]
  have hjm := List.mem_of_getElem? hj
  unfold Sys.decide
  split
  · rename_i hok
    -- the file is still the one that was verified, for the release that is available
    have hver := h.verdict j hjm hr
    simp only [Verdict, hpc] at hver
    obtain ⟨bytes, hcont, hhash, hsig⟩ := hver hok.1 hok.2
    have hcap := h.captured j hjm hact
    obtain ⟨upd, hupd, heq⟩ := Option.map_eq_some_iff.1 hcap
    have hgood : Good c (s.disk.content j.apk.dest) s.available :=
      ⟨bytes, upd, hcont, hupd, heq.trans hhash, hsig⟩
    simp only
    split
    · refine h.moved hj hr rfl rfl rfl rfl (fun _ => rfl) (fun hrun => (by cases hrun))
        ⟨fun _ => ⟨j.apk.dest, rfl, hgood⟩, fun x hx => ?_⟩
      rcases List.mem_append.1 hx with hx | hx
      · exact h.verified.handed x hx
      · rw [List.mem_singleton.1 hx]
        exact hgood
    · exact h.moved hj hr rfl rfl rfl rfl (fun _ => rfl) (fun hrun => (by cases hrun))
        ⟨fun _ => ⟨j.apk.dest, rfl, hgood⟩, h.verified.handed⟩
  · exact h.moved hj hr rfl rfl rfl rfl (fun hst => (by cases hst)) (fun hrun => (by cases hrun))
      (verified_busy h.verified (fun hst => by cases hst) rfl)

theorem runJob_inv {s' : Sys} {e : Event} (h : Inv c s) (hj : s.jobs[k]? = some j)
    (hs : s.runJob c k j e = some s') : Inv c s' := by
  have hjm := List.mem_of_getElem? hj
  cases hpc : j.pc with
  | done =>
    simp only [Sys.runJob, hpc] at hs
    cases hs
  | dispatch =>
    have hr : j.running = true := by simp [Job.running, hpc]
    simp only [Sys.runJob, hpc, Option.some.injEq] at hs
    subst hs
    exact resume_inv h hj hr fun _ => h.download hj hr s.disk s.progress rfl rfl trivial
  | connect =>
    have hr : j.running = true := by simp [Job.running, hpc]
    simp only [Sys.runJob, hpc] at hs
    split at hs
    · cases hs
      exact abort_inv h hj hr
    · cases hs
      exact h.download hj hr s.disk s.progress rfl rfl trivial
  | outputStream =>
    have hr : j.running = true := by simp [Job.running, hpc]
    simp only [Sys.runJob, hpc] at hs
    split at hs
    · cases hs
      exact abort_inv h hj hr
    · cases hs
      exact h.download hj hr _ s.progress rfl rfl trivial
  | check =>
    have hr : j.running = true := by simp [Job.running, hpc]
    simp only [Sys.runJob, hpc] at hs
    split at hs
    · cases hs
      exact h.download hj hr _ s.progress rfl rfl trivial
    · cases hs
      exact h.download hj hr s.disk s.progress rfl rfl trivial
  | read =>
    have hr : j.running = true := by simp [Job.running, hpc]
    simp only [Sys.runJob, hpc] at hs
    split at hs
    · cases hs
      exact abort_inv h hj hr
    · split at hs
      · cases hs
        exact h.download hj hr s.disk s.progress rfl rfl trivial
      · cases hs
        exact h.download hj hr s.disk s.progress rfl rfl trivial
  | write bytes =>
    have hr : j.running = true := by simp [Job.running, hpc]
    simp only [Sys.runJob, hpc] at hs
    split at hs
    · cases hs
      exact abort_inv h hj hr
    · cases hs
      exact h.download hj hr _ s.progress rfl rfl trivial
  | progress =>
    have hr : j.running = true := by simp [Job.running, hpc]
    simp only [Sys.runJob, hpc, Option.some.injEq] at hs
    subst hs
    exact h.download hj hr s.disk _ rfl rfl trivial
  | rename =>
    have hr : j.running = true := by simp [Job.running, hpc]
    simp only [Sys.runJob, hpc, Option.some.injEq] at hs
    subst hs
    exact moveTo_inv h hj hr e.throws
  | failed =>
    have hr : j.running = true := by simp [Job.running, hpc]
    simp only [Sys.runJob, hpc, Option.some.injEq] at hs
    subst hs
    refine resume_inv h hj hr fun _ => ?_
    exact h.moved hj hr rfl rfl rfl rfl (fun hst => (by cases hst)) (fun hrun => (by cases hrun))
      (verified_busy h.verified (fun hst => by cases hst) rfl)
  | success =>
    have hr : j.running = true := by simp [Job.running, hpc]
    simp only [Sys.runJob, hpc, Option.some.injEq] at hs
    subst hs
    refine resume_inv h hj hr fun _ => ?_
    exact h.moved hj hr rfl rfl rfl rfl (fun hst => (by cases hst)) (fun _ => trivial)
      (verified_busy h.verified (fun hst => by cases hst) rfl)
  | checksum =>
    have hr : j.running = true := by simp [Job.running, hpc]
    simp only [Sys.runJob, hpc] at hs
    split at hs
    · cases hs
      exact h.download hj hr s.disk s.progress rfl rfl trivial
    · rename_i bytes hcont
      cases hs
      refine h.download hj hr s.disk s.progress rfl rfl fun hok => ?_
      refine ⟨bytes, hcont, ?_⟩
      show j.upd.apkSha256 = some (c.sha256 bytes)
      unfold verifySha256 at hok
      split at hok
      · cases hok
      · rename_i hex hhex
        split at hok
        · rename_i heq
          rw [hhex, heq]
        · cases hok
  | signature checksum =>
    have hr : j.running = true := by simp [Job.running, hpc]
    simp only [Sys.runJob, hpc, Option.some.injEq] at hs
    subst hs
    have hver := h.verdict j hjm hr
    simp only [Verdict, hpc] at hver
    refine resume_inv h hj hr fun _ => ?_
    split
    · refine h.download hj hr s.disk s.progress rfl rfl fun _ hsig => ?_
      cases hsig
    · rename_i bytes hcont
      refine h.download hj hr s.disk s.progress rfl rfl fun hok hsig => ?_
      obtain ⟨bytes', hcont', hhash⟩ := hver hok
      obtain rfl : bytes = bytes' := Option.some.inj (hcont.symm.trans hcont')
      refine ⟨bytes, hcont, hhash, ?_⟩
      unfold verifySignatureMatchesInstalled at hsig
      split at hsig
      · assumption
      · cases hsig
  | decide checksum signature =>
    have hr : j.running = true := by simp [Job.running, hpc]
    simp only [Sys.runJob, hpc, Option.some.injEq] at hs
    subst hs
    exact resume_inv h hj hr fun hcan => decide_inv h hj hpc hcan e.canInstall

end Job

/-! ## The commands -/

section Commands

variable {s : Sys}

theorem offer_inv {result : Release} (h : Inv c s) (hc : careful s (.offer result)) :
    Inv c (s.offer result) := by
  obtain ⟨hact, hready⟩ := hc
  unfold Sys.offer
  by_cases hv : s.available.map (·.version) ≠ some result.version
  · rw [if_pos hv]
    refine ⟨h.last, fun j hj ha => ?_, fun hst => (by cases hst), h.verdict,
      ⟨fun hst => (by cases hst), h.verified.handed⟩⟩
    show some result.apkSha256 = some j.upd.apkSha256
    rw [hact j hj ha]
  · rw [if_neg hv]
    refine ⟨h.last, fun j hj ha => ?_, h.idle, h.verdict, ⟨fun hst => ?_, h.verified.handed⟩⟩
    · show some result.apkSha256 = some j.upd.apkSha256
      rw [hact j hj ha]
    · -- the offer is renewed while its file is ready
      obtain ⟨file, hfile, bytes, upd, hcont, hav, hhash, hsig⟩ := h.verified.ready hst
      have hsame := hready hst (by simpa using hv)
      rw [hav] at hsame
      refine ⟨file, hfile, bytes, result, hcont, rfl, ?_, hsig⟩
      exact (Option.some.inj hsame).symm.trans hhash

theorem clearIfInstalled_inv {newer : Bool} (h : Inv c s)
    (hc : careful s (.clearIfInstalled newer)) : Inv c (s.clearIfInstalled newer) := by
  unfold Sys.clearIfInstalled
  split
  · rename_i hn
    refine ⟨h.last, fun j hj ha => ?_, fun hst => (by cases hst), h.verdict,
      ⟨fun hst => (by cases hst), h.verified.handed⟩⟩
    rw [hc hn.2 j hj] at ha
    cases ha
  · exact h

/-- Cancelling a job stops nothing that runs. -/
theorem cancel_inv (h : Inv c s) : Inv c s.cancel := by
  have hget : ∀ {k : Nat} {j : Job}, s.cancel.jobs[k]? = some j →
      ∃ u, s.jobs[k]? = some u ∧ (j = u ∨ j = { u with cancelled := true }) := by
    intro k j hj
    simp only [Sys.cancel] at hj
    split at hj
    · exact ⟨j, hj, .inl rfl⟩
    · rw [List.getElem?_modify] at hj
      obtain ⟨u, hu, rfl⟩ := Option.map_eq_some_iff.1 hj
      refine ⟨u, hu, ?_⟩
      split
      · exact .inr rfl
      · exact .inl rfl
  have hlen : s.cancel.jobs.length = s.jobs.length := by
    simp only [Sys.cancel]
    split
    · rfl
    · exact List.length_modify ..
  refine ⟨fun k j hj hr => ?_, fun j hj ha => ?_, fun hst => (by cases hst), fun j hj hr => ?_,
    ⟨fun hst => (by cases hst), h.verified.handed⟩⟩
  · obtain ⟨u, hu, rfl | rfl⟩ := hget hj
    · rw [hlen]
      exact h.last k j hu hr
    · rw [hlen]
      exact h.last k u hu hr
  · obtain ⟨k, hk⟩ := List.getElem?_of_mem hj
    obtain ⟨u, hu, rfl | rfl⟩ := hget hk
    · exact h.captured j (List.mem_of_getElem? hu) ha
    · simp [Job.active] at ha
  · obtain ⟨k, hk⟩ := List.getElem?_of_mem hj
    obtain ⟨u, hu, rfl | rfl⟩ := hget hk
    · exact h.verdict j (List.mem_of_getElem? hu) hr
    · exact h.verdict u (List.mem_of_getElem? hu) hr

theorem start_inv (h : Inv c s) (hc : careful s .start) : Inv c s.start := by
  unfold Sys.start
  split
  · exact h
  · rename_i upd apk hl
    have hnone : ∀ j ∈ s.jobs, j.running = false := hc (by rw [hl]; rfl)
    have hav : s.available = some upd := by
      unfold Sys.launches at hl
      obtain ⟨u, hu, hl⟩ := Option.bind_eq_some_iff.1 hl
      obtain ⟨a, -, hl⟩ := Option.bind_eq_some_iff.1 hl
      split at hl
      · cases hl
      · cases hl
        exact hu
    have hmem : ∀ {j : Job}, j ∈ s.jobs ++ [⟨upd, apk, false, .dispatch, 0, 0, 0⟩] →
        j.running = true → j = ⟨upd, apk, false, .dispatch, 0, 0, 0⟩ := by
      intro j hj hr
      rcases List.mem_append.1 hj with hj | hj
      · rw [hnone j hj] at hr
        cases hr
      · exact List.mem_singleton.1 hj
    refine ⟨fun k j hj hr => ?_, fun j hj ha => ?_, fun hst => (by cases hst), fun j hj hr => ?_,
      ⟨fun hst => (by cases hst), h.verified.handed⟩⟩
    · have hlen : k < (s.jobs ++ [_]).length := (List.getElem?_eq_some_iff.1 hj).1
      show k + 1 = (s.jobs ++ [_]).length
      by_cases hk : k < s.jobs.length
      · have hj : (s.jobs ++ [_])[k]? = some j := hj
        rw [List.getElem?_append_left hk] at hj
        rw [hnone j (List.mem_of_getElem? hj)] at hr
        cases hr
      · rw [List.length_append, List.length_singleton] at hlen ⊢
        omega
    · obtain rfl := hmem hj (active_running ha)
      show s.available.map (·.apkSha256) = some upd.apkSha256
      rw [hav]
      rfl
    · obtain rfl := hmem hj hr
      exact trivial

end Commands

theorem step_inv (s : Sys) (a : Act) (s' : Sys) (h : Inv c s) (hc : careful s a)
    (hs : step c s a = some s') : Inv c s' := by
  cases a with
  | offer result =>
    cases hs
    exact offer_inv h hc
  | clearIfInstalled newer =>
    cases hs
    exact clearIfInstalled_inv h hc
  | cancel =>
    cases hs
    exact cancel_inv h
  | start =>
    cases hs
    exact start_inv h hc
  | install =>
    simp only [step] at hs
    split at hs
    · rename_i hst
      obtain ⟨file, hfile, rfl⟩ := Option.map_eq_some_iff.1 hs
      obtain ⟨f, hf, hgood⟩ := h.verified.ready hst
      obtain rfl : file = f := Option.some.inj (hfile.symm.trans hf)
      refine ⟨h.last, h.captured, h.idle, h.verdict, ⟨h.verified.ready, fun x hx => ?_⟩⟩
      rcases List.mem_append.1 hx with hx | hx
      · exact h.verified.handed x hx
      · rw [List.mem_singleton.1 hx]
        exact hgood
    · cases hs
  | run k e =>
    obtain ⟨j, hj, hs⟩ := Option.bind_eq_some_iff.1 hs
    exact runJob_inv h hj hs

theorem fresh_inv : Inv c .fresh :=
  ⟨fun k j hj => (by cases hj), fun j hj => absurd hj List.not_mem_nil,
    fun hst => (by cases hst), fun j hj => absurd hj List.not_mem_nil,
    ⟨fun hst => (by cases hst), fun h hh => absurd hh List.not_mem_nil⟩⟩

/-- A job with a later one does not run any more. -/
theorem inv_lawful (s : Sys) (a : Act) (h : Inv c s) : lawful c s a := by
  cases a with
  | run k e =>
    intro hk s' hs
    obtain ⟨j, hj, hs⟩ := Option.bind_eq_some_iff.1 hs
    have hpc : j.pc = .done := by
      by_contra hne
      have := h.last k j hj (by simp [Job.running, hne])
      omega
    simp only [Sys.runJob, hpc] at hs
    cases hs
  | _ => trivial

/-- **Only the offered, verified update reaches the installer.** -/
theorem update_verified {as : List Act} {s : Sys} (hc : Meets (step c) careful .fresh as)
    (hr : run (step c) .fresh as = some s) :
    Verified c s ∧ Meets (step c) (lawful c) .fresh as :=
  ⟨(run_inv step_inv fresh_inv hc hr).verified,
    meets_of_inv step_inv (fun s a h _ => inv_lawful s a h) fresh_inv hc⟩

/-! ## Two runs -/

/-- The published file is "abc". -/
def abc : Checks where
  sha256 bytes :=
    if bytes = [97, 98, 99] then "ba7816bf8f01cfea414140de5dae2223b00361a396177a9cb410ff61f20015ad"
    else "cb8379ac2098aa165029e3938a51da0bcecfc008fd6795f401178647f96c5b34"
  signed bytes := bytes = [97, 98, 99]

def release : Release where
  version := "1.2.0"
  apk := some ⟨"app.apk", 3⟩
  apkSha256 := some "ba7816bf8f01cfea414140de5dae2223b00361a396177a9cb410ff61f20015ad"

/-- A job that reads `chunk`. -/
def reads (k : Nat) (chunk : Bytes) : Act := .run k ⟨false, 3, chunk, false⟩

/-- A job from its start to its first read, and from the first chunk to the verified file. -/
def opens (k : Nat) : List Act := List.replicate 4 (reads k [])

def finishes (k : Nat) : List Act :=
  List.replicate 4 (reads k [97, 98, 99]) ++ List.replicate 6 (reads k [])

def oneJob : List Act := [.offer release, .start] ++ opens 0 ++ finishes 0 ++ [.install]

theorem oneJob_verified : ∃ s, run (step abc) .fresh oneJob = some s ∧ s.stage = .ready ∧
    s.handed.length = 1 ∧ Verified abc s ∧ Meets (step abc) (lawful abc) .fresh oneJob := by
  have hc : Meets (step abc) careful .fresh oneJob := by decide
  exact ⟨_, rfl, rfl, rfl, update_verified hc rfl⟩

/-- A job is cancelled in a read and another one is started, which downloads the file; then the
read of the first one returns. -/
def twoJobs : List Act :=
  [.offer release, .start] ++ opens 0 ++ [.cancel, .start] ++ opens 1 ++ finishes 1 ++
    [reads 0 [120, 121, 122], reads 0 []]

/-- The first job writes into the verified file. -/
theorem twoJobs_unverified : ∃ s, run (step abc) .fresh twoJobs = some s ∧ s.stage = .ready ∧
    s.readyFile = some "app.apk" ∧ s.disk.content "app.apk" = some [120, 121, 122] ∧
    ¬Verified abc s := by
  refine ⟨_, rfl, rfl, rfl, rfl, fun h => ?_⟩
  obtain ⟨file, hfile, bytes, upd, hcont, -, -, hsig⟩ := h.ready rfl
  cases hfile
  cases hcont
  cases hsig

end Ghajar.Update
