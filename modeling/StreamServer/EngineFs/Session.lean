import StreamServer.EngineFs.Flow

/-!
# The map of engines and the session

Each operation on the registry has two steps: adding a torrent puts it into the session and
then into the map, and the removal of an inactive engine takes it out of the map and then out
of the session.  The routes that remove engines only take them out of the map.

## Main definitions

* `Instr.inserts`, `Instr.removes` — the second steps.
* `Agree` — the invariant for a torrent.
* `Whole` — the condition: no engine is taken out of the map alone, and no add overlaps with a
  removal of the same torrent.

## Main results

* `Agree.step` — a step keeps the invariant.
* `registered_iff` — with no operation half done, the map and the session agree.
* `registered_not` — the route that removes an engine leaves the torrent in the session.

## References

`enginefs/src/lib.rs`, `add_torrent`, `remove_engine`, the cleanup loop;
`server/src/routes/engine.rs`, `remove_engine`, `remove_all_engines`;
`enginefs/src/backend/libtorrent/mod.rs`, `add_torrent`, `remove_torrent`.
-/

namespace StreamServer.EngineFs

open TaskSystem

namespace Instr

/-- The second step of adding the torrent. -/
def inserts (h : String) : Instr → Bool
  | .insertEngine h' => h' == h
  | _ => false

/-- The second step of removing the torrent. -/
def removes (h : String) : Instr → Bool
  | .removeBackend h' => h' == h
  | _ => false

/-- The second step of an operation. -/
def halfDone : Instr → Bool
  | .insertEngine _ | .removeBackend _ => true
  | _ => false

variable {k : Instr} (s : Shared) (b : Answer) (h : String)

theorem inserts_le : inserts h k = true → halfDone k = true := by
  cases k <;> first | exact fun _ => rfl | exact id

theorem removes_le : removes h k = true → halfDone k = true := by
  cases k <;> first | exact fun _ => rfl | exact id

theorem inserts_leadsTo {k' : Instr} (hk : ∀ h, k ≠ .addTorrent h) (h' : k.leadsTo k' = true) :
    inserts h k' = false := by
  cases k' with
  | insertEngine _ =>
    cases k with
    | addTorrent h => exact absurd rfl (hk h)
    | _ => cases h'
  | _ => rfl

theorem removes_leadsTo {k' : Instr} (hk : ∀ hs, k ≠ .removeEngines hs) (h' : k.leadsTo k' = true) :
    removes h k' = false := by
  cases k' with
  | removeBackend _ =>
    cases k with
    | removeEngines hs => exact absurd rfl (hk hs)
    | _ => cases h'
  | _ => rfl

theorem inserts_starts {k' : Instr} (h' : k.starts k' = true) : inserts h k' = false := by
  cases k' with
  | insertEngine _ => cases k <;> cases h'
  | _ => rfl

theorem removes_starts {k' : Instr} (h' : k.starts k' = true) : removes h k' = false := by
  cases k' with
  | removeBackend _ => cases k <;> cases h'
  | _ => rfl

theorem removeEngines_next (hs : List String) :
    ((Instr.removeEngines hs).run s b).next.countP (removes h) = hs.count h := by
  simp only [run, goOn, List.countP_map]
  rfl

/-- The stretch adds the torrent to the session or takes it out. -/
def writesMembership : Instr → Bool
  | .addTorrent _ | .removeBackend _ => true
  | _ => false

theorem run_membership (hk : k.writesMembership = false) :
    ((k.run s b).shared.session h).isSome = (s.session h).isSome := by
  cases k with
  | addTorrent _ | removeBackend _ => cases hk
  | resumeTorrent h' a =>
    simp only [run, runResumeTorrent]
    split
    · exact s.setTorrent_isSome ..
    · rfl
  | pauseTorrent h' a =>
    simp only [run, runPauseTorrent]
    split
    · exact s.setTorrent_isSome ..
    · rfl
  | resumeSeeding h' a =>
    simp only [run, runResumeSeeding]
    split
    · exact s.setTorrent_isSome ..
    · rfl
  | reconcileFiles h' wanted =>
    simp only [run]
    split
    · exact s.setTorrent_isSome ..
    · rfl
  | _ => rw [run_session s b rfl]

/-! ### The two sides -/

theorem isSome_addTorrent (h' : String) (hok : b.ok = true) :
    (((Instr.addTorrent h').run s b).shared.session h).isSome = true ↔
      h = h' ∨ (s.session h).isSome = true := by
  simp only [run, hok, if_true, goOn]
  rcases eq_or_ne h h' with rfl | hne
  · simp
  · simp [hne]

theorem isSome_removeBackend (h' : String) (hok : b.ok = true) :
    (((Instr.removeBackend h').run s b).shared.session h).isSome = true ↔
      h ≠ h' ∧ (s.session h).isSome = true := by
  simp only [run, hok, if_true, stop]
  rcases eq_or_ne h h' with rfl | hne
  · simp
  · simp [hne]

theorem mem_insertEngine (h' : String) :
    h ∈ ((Instr.insertEngine h').run s b).shared.hashes ↔ h = h' ∨ h ∈ s.hashes := by
  simp only [run, runInsertEngine]
  cases hfound : s.engine h' with
  | none => simp [Shared.hashes]
  | some a =>
    have hmem : h' ∈ s.hashes := by
      rw [Shared.engine, List.lookup_eq_some_iff] at hfound
      obtain ⟨before, after, heq, -⟩ := hfound
      simp [Shared.hashes, heq]
    constructor
    · intro hin
      exact Or.inr hin
    · intro hin
      rcases hin with rfl | hin
      · exact hmem
      · exact hin

theorem mem_removeEngine (h' : String) :
    h ∈ ((Instr.removeEngine h').run s b).shared.hashes ↔ h ≠ h' ∧ h ∈ s.hashes := by
  simp only [run, stop, Shared.hashes, List.mem_map, List.mem_filter, bne_iff_ne]
  constructor
  · intro hin
    obtain ⟨entry, ⟨hentry, hne⟩, heq⟩ := hin
    exact ⟨heq ▸ hne, entry, hentry, heq⟩
  · intro hin
    obtain ⟨hne, entry, hentry, heq⟩ := hin
    exact ⟨entry, ⟨hentry, heq ▸ hne⟩, heq⟩

theorem mem_removeEngines (hs : List String) :
    h ∈ ((Instr.removeEngines hs).run s b).shared.hashes ↔ h ∉ hs ∧ h ∈ s.hashes := by
  simp only [run, goOn, Shared.hashes, List.mem_map, List.mem_filter]
  constructor
  · intro hin
    obtain ⟨entry, ⟨hentry, hnot⟩, heq⟩ := hin
    subst heq
    exact ⟨by simpa using hnot, entry, hentry, rfl⟩
  · intro hin
    obtain ⟨hnot, entry, hentry, heq⟩ := hin
    subst heq
    exact ⟨entry, ⟨hentry, by simpa using hnot⟩, rfl⟩

end Instr

open Instr

/-! ### The invariant -/

/-- The map and the session agree on a torrent, but for what is half done. -/
structure Agree (w : World) (h : String) : Prop where
  known : h ∈ w.shared.hashes → (w.shared.session h).isSome = true
  follows : (w.shared.session h).isSome = true →
    h ∈ w.shared.hashes ∨ 0 < w.pending (inserts h) ∨ 0 < w.pending (removes h)
  adding : 0 < w.pending (inserts h) →
    (w.shared.session h).isSome = true ∧ w.pending (removes h) = 0
  removing : 0 < w.pending (removes h) → h ∉ w.shared.hashes

/-- **The condition.**  An engine is taken out of the map alone only if it is not there, or is
about to be put back; no removal of a torrent overlaps with an add of it.  The backend removes
what it is asked to. -/
def Whole (w : World) : Action → Prop
  | .run _ (.removeEngine h) _ => h ∈ w.shared.hashes → 0 < w.pending (inserts h)
  | .run _ (.removeEngines hs) _ => ∀ h ∈ hs, w.pending (inserts h) = 0
  | .run _ (.addTorrent h) _ => w.pending (removes h) = 0
  | .run _ (.removeBackend _) b => b.ok = true
  | _ => True

/-- No operation is half done. -/
def Settled (w : World) : Prop := w.pending halfDone = 0

section Step

variable {w : World} {h : String}

/-- A step that neither starts nor ends a half of an operation. -/
theorem Agree.of_same {w' : World} (hw : Agree w h) (hhashes : h ∈ w'.shared.hashes ↔ h ∈ w.shared.hashes)
    (hsession : (w'.shared.session h).isSome = (w.shared.session h).isSome)
    (hinserts : w'.pending (inserts h) = w.pending (inserts h))
    (hremoves : w'.pending (removes h) = w.pending (removes h)) : Agree w' h := by
  constructor
  · rw [hhashes, hsession]
    exact hw.known
  · rw [hhashes, hsession, hinserts, hremoves]
    exact hw.follows
  · rw [hsession, hinserts, hremoves]
    exact hw.adding
  · rw [hhashes, hremoves]
    exact hw.removing

theorem Agree.arrive (hw : Agree w h) (call : Call) :
    Agree ((engineFs false).system.effect w (.arrive call)) h := by
  refine hw.of_same ?_ ?_ ?_ ?_
  · cases call <;> rfl
  · cases call <;> rfl
  · rw [counted_arrive]
    cases call with
    | setSeeding enabled => cases enabled <;> rfl
    | _ => rfl
  · rw [counted_arrive]
    cases call with
    | setSeeding enabled => cases enabled <;> rfl
    | _ => rfl

variable {i : ℕ} {k : Instr} {b : Answer}

/-- A stretch that has nothing to do with it. -/
theorem Agree.run_other (hw : Agree w h) (hg : (engineFs false).system.guard w (.run i k b))
    (hengines : k.writesEngines = false) (hsession : k.writesMembership = false) :
    Agree ((engineFs false).system.effect w (.run i k b)) h := by
  refine hw.of_same ?_ (run_membership _ _ _ hsession) ?_ ?_
  · rw [Shared.hashes, shared_run, run_engines _ _ hengines]
    rfl
  · refine counted_run_same hg ?_ (fun k' => inserts_leadsTo h ?_) (fun k' => inserts_starts h)
    · cases k <;> first | rfl | cases hengines
    · intro h' hk
      rw [hk] at hsession
      cases hsession
  · refine counted_run_same hg ?_ (fun k' => removes_leadsTo h ?_) (fun k' => removes_starts h)
    · cases k <;> first | rfl | cases hsession
    · intro hs hk
      rw [hk] at hengines
      cases hengines

theorem Agree.addTorrent {h' : String} (hw : Agree w h)
    (hg : (engineFs false).system.guard w (.run i (.addTorrent h') b))
    (hnone : w.pending (removes h') = 0) :
    Agree ((engineFs false).system.effect w (.run i (.addTorrent h') b)) h := by
  have hinserts := counted_run hg (inserts h)
  have hremoves := counted_run_same hg rfl
    (fun k' => removes_leadsTo h (by simp)) (fun k' => removes_starts h)
  have hengines : ((engineFs false).system.effect w (.run i (.addTorrent h') b)).shared.hashes =
      w.shared.hashes := by
    rw [Shared.hashes, shared_run, run_engines _ _ rfl]
    rfl
  cases hok : b.ok with
  | false =>
    simp [Instr.run, hok, inserts] at hinserts
    refine hw.of_same (by rw [hengines]) ?_ hinserts hremoves
    simp [Instr.run, hok]
  | true =>
    simp only [Instr.run, hok, if_true, goOn, List.countP_cons, List.countP_nil, inserts,
      Bool.toNat_false, List.flatten_nil] at hinserts
    have hsession := isSome_addTorrent w.shared b h h' hok
    rcases eq_or_ne h h' with rfl | hne
    · have hin := hsession.mpr (Or.inl rfl)
      simp only [beq_self_eq_true, if_true] at hinserts
      -- the torrent is in the session, and the map is to follow
      constructor
      · intro _
        exact hin
      · intro _
        exact Or.inr (Or.inl (by omega))
      · intro _
        exact ⟨hin, by rw [hremoves, hnone]⟩
      · intro hpos
        rw [hremoves, hnone] at hpos
        omega
    · refine hw.of_same (by rw [hengines]) ?_ ?_ hremoves
      · rw [shared_run, Bool.eq_iff_iff, hsession]
        simp [hne]
      · simpa [hne.symm] using hinserts

theorem Agree.insertEngine {h' : String} (hw : Agree w h)
    (hg : (engineFs false).system.guard w (.run i (.insertEngine h') b)) :
    Agree ((engineFs false).system.effect w (.run i (.insertEngine h') b)) h := by
  have hinserts := counted_run hg (inserts h)
  rw [Instr.countP_next _ _ fun k' => inserts_leadsTo h (by simp),
    Instr.countP_spawned _ _ fun k' => inserts_starts h] at hinserts
  have hremoves := counted_run_same hg rfl
    (fun k' => removes_leadsTo h (by simp)) (fun k' => removes_starts h)
  have hsession := run_membership w.shared b h (k := .insertEngine h') rfl
  have hengines := mem_insertEngine w.shared b h h'
  rcases eq_or_ne h h' with rfl | hne
  · simp only [inserts, beq_self_eq_true, Bool.toNat_true] at hinserts
    obtain ⟨hsome, hnone⟩ := hw.adding (by omega)
    constructor
    · intro _
      rw [shared_run, hsession, hsome]
    · intro _
      exact Or.inl (hengines.mpr (Or.inl rfl))
    · intro _
      exact ⟨by rw [shared_run, hsession, hsome], by rw [hremoves, hnone]⟩
    · intro hpos
      rw [hremoves, hnone] at hpos
      omega
  · refine hw.of_same ?_ hsession ?_ hremoves
    · rw [shared_run, hengines]
      simp [hne]
    · simpa [inserts, beq_eq_false_iff_ne.mpr hne.symm] using hinserts

theorem Agree.removeEngine {h' : String} (hw : Agree w h)
    (hg : (engineFs false).system.guard w (.run i (.removeEngine h') b))
    (hback : h' ∈ w.shared.hashes → 0 < w.pending (inserts h')) :
    Agree ((engineFs false).system.effect w (.run i (.removeEngine h') b)) h := by
  have hinserts := counted_run_same hg rfl
    (fun k' => inserts_leadsTo h (by simp)) (fun k' => inserts_starts h)
  have hremoves := counted_run_same hg rfl
    (fun k' => removes_leadsTo h (by simp)) (fun k' => removes_starts h)
  have hsession := run_membership w.shared b h (k := .removeEngine h') rfl
  have hengines := mem_removeEngine w.shared b h h'
  rcases eq_or_ne h h' with rfl | hne
  · have hgone : h ∉ ((Instr.removeEngine h).run w.shared b).shared.hashes := by simp [hengines]
    constructor
    · intro hin
      exact absurd hin hgone
    · rw [shared_run, hsession, hinserts, hremoves]
      intro hsome
      -- what is taken out is about to be put back
      rcases hw.follows hsome with hin | hpos
      · exact Or.inr (Or.inl (hback hin))
      · exact Or.inr hpos
    · rw [shared_run, hsession, hinserts, hremoves]
      exact hw.adding
    · intro _
      exact hgone
  · refine hw.of_same ?_ hsession hinserts hremoves
    rw [shared_run, hengines]
    simp [hne]

theorem Agree.removeEngines {hs : List String} (hw : Agree w h)
    (hg : (engineFs false).system.guard w (.run i (.removeEngines hs) b))
    (hnone : ∀ h ∈ hs, w.pending (inserts h) = 0) :
    Agree ((engineFs false).system.effect w (.run i (.removeEngines hs) b)) h := by
  have hinserts := counted_run_same hg rfl
    (fun k' => inserts_leadsTo h (by simp)) (fun k' => inserts_starts h)
  have hremoves := counted_run hg (removes h)
  rw [removeEngines_next, Instr.countP_spawned _ _ fun k' => removes_starts h] at hremoves
  simp only [removes, Bool.toNat_false, Nat.add_zero] at hremoves
  have hsession := run_membership w.shared b h (k := .removeEngines hs) rfl
  have hengines := mem_removeEngines w.shared b h hs
  by_cases hin : h ∈ hs
  · have hcount : 0 < hs.count h := List.count_pos_iff.mpr hin
    have hgone : h ∉ ((Instr.removeEngines hs).run w.shared b).shared.hashes := by simp [hengines, hin]
    constructor
    · intro hin
      exact absurd hin hgone
    · intro _
      exact Or.inr (Or.inr (by omega))
    · intro hpos
      rw [hinserts, hnone h hin] at hpos
      omega
    · intro _
      exact hgone
  · refine hw.of_same ?_ hsession hinserts ?_
    · rw [shared_run, hengines]
      simp [hin]
    · rw [hremoves, List.count_eq_zero.mpr hin, Nat.add_zero]

theorem Agree.removeBackend {h' : String} (hw : Agree w h)
    (hg : (engineFs false).system.guard w (.run i (.removeBackend h') b)) (hok : b.ok = true) :
    Agree ((engineFs false).system.effect w (.run i (.removeBackend h') b)) h := by
  have hinserts := counted_run_same hg rfl
    (fun k' => inserts_leadsTo h (by simp)) (fun k' => inserts_starts h)
  have hremoves := counted_run hg (removes h)
  rw [Instr.countP_next _ _ fun k' => removes_leadsTo h (by simp),
    Instr.countP_spawned _ _ fun k' => removes_starts h] at hremoves
  have hsession := isSome_removeBackend w.shared b h h' hok
  have hengines : ((engineFs false).system.effect w (.run i (.removeBackend h') b)).shared.hashes =
      w.shared.hashes := by
    rw [Shared.hashes, shared_run, run_engines _ _ rfl]
    rfl
  rcases eq_or_ne h h' with rfl | hne
  · simp only [removes, beq_self_eq_true, Bool.toNat_true] at hremoves
    have hgone := hw.removing (by omega)
    constructor
    · intro hin
      rw [hengines] at hin
      exact absurd hin hgone
    · intro hsome
      exact absurd rfl (hsession.mp hsome).1
    · intro hpos
      rw [hinserts] at hpos
      have hnone := (hw.adding hpos).2
      omega
    · intro _
      rw [hengines]
      exact hgone
  · refine hw.of_same (by rw [hengines]) ?_ hinserts ?_
    · rw [shared_run, Bool.eq_iff_iff, hsession]
      simp [hne]
    · simpa [removes, beq_eq_false_iff_ne.mpr hne.symm] using hremoves

/-- **A step keeps the invariant.** -/
theorem Agree.step {a : Action} (hw : Agree w h) (hg : (engineFs false).system.guard w a)
    (hc : Whole w a) : Agree ((engineFs false).system.effect w a) h := by
  cases a with
  | arrive call => exact hw.arrive call
  | drop i =>
    obtain ⟨stack, -, hdrops, -⟩ := hg
    cases hdrops
  | run i k b =>
    cases k with
    | addTorrent h' => exact hw.addTorrent hg hc
    | insertEngine h' => exact hw.insertEngine hg
    | removeEngine h' => exact hw.removeEngine hg hc
    | removeEngines hs => exact hw.removeEngines hg hc
    | removeBackend h' => exact hw.removeBackend hg hc
    | _ => exact hw.run_other hg rfl rfl

end Step

/-! ### Runs -/

theorem hashes_new (native : Bool) (restored : List String) :
    (Shared.new native restored).hashes = restored := by
  rw [Shared.hashes, Shared.new, List.zipIdx_map_fst]

/-- The restored torrents are on both sides. -/
theorem agree_new (native : Bool) (restored : List String) (h : String) :
    Agree (World.new native restored) h := by
  have hsession : ((Shared.new native restored).session h).isSome = true ↔ h ∈ restored := by
    simp only [Shared.new]
    split <;> simp_all
  have hengines : h ∈ (Shared.new native restored).hashes ↔ h ∈ restored := by
    rw [hashes_new]
  constructor
  · intro hin
    exact hsession.mpr (hengines.mp hin)
  · intro hsome
    exact Or.inl (hengines.mpr (hsession.mp hsome))
  · intro hpos
    exact absurd hpos (by simp [World.new, TaskSystem.World.pending, TaskSystem.World.stacked, inserts])
  · intro hpos
    exact absurd hpos (by simp [World.new, TaskSystem.World.pending, TaskSystem.World.stacked, removes])

/-- **In every run that meets the condition**, whenever no operation is half done, the engines are
those of the torrents in the session. -/
theorem registered_iff {native : Bool} {restored : List String} {w : World}
    (hrun : (engineFs false).system.Reach Whole (World.new native restored) w) (hsettled : Settled w)
    (h : String) : h ∈ w.shared.hashes ↔ (w.shared.session h).isSome = true := by
  have hw : (fun u => Agree u h) w := by
    apply hrun.invariant
    · exact agree_new native restored h
    · intro u a hu hg hc
      exact hu.step hg hc
  have hinserts : w.pending (inserts h) ≤ w.pending halfDone := List.countP_mono_left fun _ _ => inserts_le h
  have hremoves : w.pending (removes h) ≤ w.pending halfDone := List.countP_mono_left fun _ _ => removes_le h
  rw [hsettled] at hinserts hremoves
  constructor
  · exact hw.known
  · intro hsome
    rcases hw.follows hsome with hin | hpos | hpos
    · exact hin
    · omega
    · omega

/-- A torrent is added. -/
theorem registered_added : ∃ w, (engineFs false).system.Reach Whole (World.new false []) w ∧
    "a" ∈ w.shared.hashes ∧ (w.shared.session "a").isSome = true := by
  have hpath : (engineFs false).system.Path Whole (World.new false [])
      [.arrive (.getOrAdd "a"), .run 1 (.getOrAdd "a") .fine, .run 1 (.addTorrent "a") .fine,
        .run 1 (.insertEngine "a") .fine] _ :=
    .cons trivial trivial (.cons (by decide) trivial (.cons (by decide) rfl
      (.cons (by decide) trivial (.nil _))))
  exact ⟨_, ⟨_, hpath⟩, by decide, (registered_iff ⟨_, hpath⟩ rfl "a").mp (by decide)⟩

/-- The route that removes an engine leaves its torrent in the session. -/
theorem registered_not : ∃ w,
    (engineFs false).system.Reach GuardedSystem.anyStep (World.new false ["a"]) w ∧
      ((∀ stack ∈ w.tasks, stack = [] ∨ stack = [.loop]) ∧ "a" ∉ w.shared.hashes ∧
        (w.shared.session "a").isSome = true) :=
  GuardedSystem.exists_reach_of_exec
    [.arrive (.removeEngine "a"), .run 1 (.removeEngine "a") .fine] (by decide)

end StreamServer.EngineFs
