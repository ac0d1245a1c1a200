import StreamServer.EngineFs.Counts

/-!
# The removal of inactive engines

The loop goes through the engines, looks at the maps one after another for each that has not
been accessed for a while, and puts those that nothing keeps on a list; then it takes the engines
on the list out of the map, and their torrents out of the session.

## Main definitions

* `InUse` — the torrent has a stream or a lease, or its engine has been handed out lately.
* `Instr.takesUp` — a stretch of a request takes a torrent up.
* `Instr.dooms` — a stretch of the loop is about to remove a torrent.
* `Sound` — what the loop has found of the torrents it is about to remove.
* `Undisturbed` — the condition: no torrent is taken up from the moment the loop finds its engine
  unaccessed to its removal.

## Main results

* `accesses_run` — engines are accessed when they are handed out.
* `Watched.run` — what the loop has found stays true.
* `spared` — **no torrent in use is removed**.
* `removed_in_use` — a request between the look and the removal.

## References

`enginefs/src/lib.rs`, the cleanup loop, `get_engine`, `on_stream_start`.
-/

namespace StreamServer.EngineFs

open TaskSystem

/-! ### Accesses -/

/-- What happens to the times of the last access in a stretch. -/
structure Accesses (s s' : Shared) : Prop where
  now : s'.now = s.now
  /-- The time of an engine stays or becomes the present. -/
  times : ∀ a, (s'.arena a).lastAccessed = (s.arena a).lastAccessed ∨ (s'.arena a).lastAccessed = s.now
  /-- An engine that is handed out is accessed. -/
  handed : ∀ h, s'.handedOut h = s.handedOut h ∨
    s'.handedOut h = some s.now ∧ ∀ a, s'.engine h = some a → (s'.arena a).lastAccessed = s.now
  /-- So is an engine that is made. -/
  made : ∀ h a, s'.engine h = some a → s.engine h = some a ∨ (s'.arena a).lastAccessed = s.now

namespace Accesses

variable {s s' s'' : Shared}

theorem of_same (hnow : s'.now = s.now) (harena : ∀ a, (s'.arena a).lastAccessed = (s.arena a).lastAccessed)
    (hhanded : s'.handedOut = s.handedOut)
    (hengines : ∀ h a, s'.engine h = some a → s.engine h = some a) : Accesses s s' := by
  constructor
  · exact hnow
  · exact fun a => Or.inl (harena a)
  · exact fun h => Or.inl (congrFun hhanded h)
  · exact fun h a ha => Or.inl (hengines h a ha)

theorem touch (s : Shared) (a : ℕ) : Accesses s (s.touch a) := by
  constructor
  · rfl
  · intro a'
    show (Function.update s.arena a _ a').lastAccessed = _ ∨ _ = _
    rcases eq_or_ne a' a with rfl | hne
    · right
      simp [Shared.touch, Shared.update]
    · left
      rw [Function.update_of_ne hne]
  · exact fun h => Or.inl rfl
  · exact fun h a ha => Or.inl ha

theorem getEngine (s : Shared) (h : String) : Accesses s (s.getEngine h) := by
  cases hfound : s.engine h with
  | none =>
    have hsame : s.getEngine h = s := by simp [Shared.getEngine, hfound]
    rw [hsame]
    exact of_same rfl (fun _ => rfl) rfl fun _ _ ha => ha
  | some a =>
    have htouch := touch s a
    have hget : s.getEngine h = { s.touch a with
        handedOut := Function.update s.handedOut h (some s.now) } := by simp [Shared.getEngine, hfound]
    rw [hget]
    constructor
    · rfl
    · exact htouch.times
    · intro h'
      rcases eq_or_ne h' h with rfl | hne
      · right
        constructor
        · simp
        · intro a' ha'
          obtain rfl : a = a' := Option.some.inj (hfound.symm.trans ha')
          simp [Shared.touch, Shared.update]
      · left
        simp [hne]
    · exact htouch.made

theorem same (s : Shared) : Accesses s s := of_same rfl (fun _ => rfl) rfl fun _ _ ha => ha

/-- What only changes other maps does not access anything. -/
theorem of_eq {s₁ s₂ : Shared} (h : Accesses s s₁) (hnow : s₂.now = s₁.now) (harena : s₂.arena = s₁.arena)
    (hhanded : s₂.handedOut = s₁.handedOut) (hengines : s₂.engines = s₁.engines) : Accesses s s₂ := by
  have hengine : ∀ h, s₂.engine h = s₁.engine h := fun h => by rw [Shared.engine, hengines, Shared.engine]
  constructor
  · rw [hnow, h.now]
  · rw [harena]
    exact h.times
  · intro h'
    rw [hhanded, harena, hengine]
    exact h.handed h'
  · intro h' a
    rw [hengine, harena]
    exact h.made h' a

/-- A change that does not access the engine. -/
theorem update {s₁ : Shared} (h : Accesses s s₁) (a : ℕ) {f : Engine → Engine}
    (hf : ∀ engine, (f engine).lastAccessed = engine.lastAccessed) : Accesses s (s₁.update a f) := by
  have harena : ∀ a', ((s₁.update a f).arena a').lastAccessed = (s₁.arena a').lastAccessed := by
    intro a'
    show (Function.update s₁.arena a _ a').lastAccessed = _
    rcases eq_or_ne a' a with rfl | hne
    · rw [Function.update_self, hf]
    · rw [Function.update_of_ne hne]
  constructor
  · exact h.now
  · intro a'
    rw [harena]
    exact h.times a'
  · intro h'
    simp only [harena]
    exact h.handed h'
  · intro h' a'
    rw [harena]
    exact h.made h' a'

end Accesses

namespace Instr

/-- **Engines are accessed when they are handed out.** -/
theorem accesses_run (k : Instr) (s : Shared) (b : Answer) : Accesses s (k.run s b).shared := by
  cases k with
  -- an engine of that name may be there already: it is handed out, and no engine is new
  | insertEngine h =>
    dsimp [run]
    split
    · exact .touch s _
    · next hfound =>
      constructor
      · rfl
      · intro a
        show (Function.update s.arena s.newEngine _ a).lastAccessed = _ ∨ _ = _
        rcases eq_or_ne a s.newEngine with rfl | hne
        · right
          simp [Shared.update]
        · left
          rw [Function.update_of_ne hne]
      · exact fun _ => Or.inl rfl
      · intro h' a ha
        rcases eq_or_ne h' h with rfl | hne
        · right
          obtain rfl : s.newEngine = a := by simpa [Shared.engine] using ha
          simp [Shared.update]
        · left
          simpa [Shared.engine, List.lookup_cons, beq_eq_false_iff_ne.mpr hne] using ha
  -- what is found after a removal was there before it
  | removeEngine h =>
    refine .of_same rfl (fun _ => rfl) rfl fun h' a ha => ?_
    have hlook := lookup_filter (· != h) h' s.engines
    rw [Shared.engine, run, stop] at ha
    exact (Option.ite_none_right_eq_some.mp (hlook.symm.trans ha)).2
  | removeEngines hs =>
    refine .of_same rfl (fun _ => rfl) rfl fun h' a ha => ?_
    have hlook := lookup_filter (!hs.contains ·) h' s.engines
    rw [Shared.engine, run, goOn] at ha
    exact (Option.ite_none_right_eq_some.mp (hlook.symm.trans ha)).2
  | clearIdle a | unpaused a | pausedAgain a =>
    dsimp only [run, stop]
    apply Accesses.update (.same s)
    intro engine
    rfl
  | multifileActive h f a => exact (Accesses.touch s a).of_eq rfl rfl rfl rfl
  -- the leases change, and the engine that has been found may be touched
  | refreshLease h f a now existing =>
    dsimp [run]
    (repeat' split) <;> first
      | exact (Accesses.same s).of_eq rfl rfl rfl rfl
      | exact (Accesses.touch s _).of_eq rfl rfl rfl rfl
  -- a delayed look touches the engine first, and what it notes is no access
  | pauseStats h a delayed =>
    have htouched : ∀ delayed : Bool, Accesses s (if delayed then s.touch a else s) := by
      intro delayed
      cases delayed
      · exact .same s
      · exact .touch s a
    dsimp only [run, runPauseStats]
    split
    · generalize hs : (if delayed then s.touch a else s) = s₁
      have hs₁ : Accesses s s₁ := hs ▸ htouched delayed
      split
      · exact hs₁
      · dsimp only [goOn]
        apply hs₁.update
        intro engine
        rfl
    · exact .same s
  -- the checks and the scans only read the registry and count the tasks
  | check checks h now busy goal => 
    rw [run, runCheck_shared]
    exact .same s
  | scanNext todo now removing =>
    obtain ⟨n, hn⟩ := runScanNext_shared s todo now removing
    rw [run, hn]
    exact (Accesses.same s).of_eq rfl rfl rfl rfl
  | idleNext todo now =>
    obtain ⟨n, hn⟩ := runIdleNext_shared s todo now
    rw [run, hn]
    exact (Accesses.same s).of_eq rfl rfl rfl rfl
  | resumeNext todo =>
    rw [run]
    rcases runResumeNext_shared s todo with ⟨n, hn⟩ | ⟨a, ha⟩
    · rw [hn]
      exact (Accesses.same s).of_eq rfl rfl rfl rfl
    · rw [ha]
      exact (Accesses.same s).update a fun _ => rfl
  | getEngine h | getOrAdd h | activateForPlayback h _ | refreshEngine h _ _ _ | endHlsEngine h _ _
  | scheduleCleanup h _ => exact Accesses.getEngine s h
  | startStream x => exact Accesses.getEngine s x.infoHash
  | _ =>
    dsimp [run]
    all_goals (repeat' split) <;> first
      | exact .same s
      | exact (Accesses.same s).of_eq rfl rfl rfl rfl
      | exact Accesses.getEngine s _

end Instr

/-- The times in the registry are past, and an engine is accessed when it is handed out. -/
structure Clocked (s : Shared) : Prop where
  past : ∀ h t, s.handedOut h = some t → t ≤ s.now
  accessed : ∀ h a t, s.engine h = some a → s.handedOut h = some t → t ≤ (s.arena a).lastAccessed

theorem Clocked.of_accesses {s s' : Shared} (h : Clocked s) (hs : Accesses s s') : Clocked s' := by
  constructor
  · intro h' t ht
    rw [hs.now]
    rcases hs.handed h' with hsame | ⟨hnow, -⟩
    · exact h.past h' t (hsame ▸ ht)
    · obtain rfl : s.now = t := Option.some.inj (hnow.symm.trans ht)
      exact Nat.le_refl _
  · intro h' a t ha ht
    rcases hs.handed h' with hsame | ⟨hnow, haccessed⟩
    · rw [hsame] at ht
      have hpast := h.past h' t ht
      rcases hs.made h' a ha with hold | hmade
      · have hold := h.accessed h' a t hold ht
        rcases hs.times a with htime | htime <;> omega
      · omega
    · obtain rfl : s.now = t := Option.some.inj (hnow.symm.trans ht)
      exact Nat.le_of_eq (haccessed a ha).symm

/-! ### What the loop finds -/

/-- **The torrent is in use**: a stream on it has been started and not been ended, a lease on a file
has not expired, or its engine has been handed out less than the timeout ago. -/
def InUse (s : Shared) (h : String) : Prop :=
  (∃ x ∈ s.streams, x.infoHash = h) ∨ (∃ lease ∈ s.leases, lease.1.1 = h ∧ s.now < lease.2) ∨
    ∃ t, s.handedOut h = some t ∧ s.now < t + removeTimeout

/-- Nothing of what the check looks for is there, nor what the look at the engine does. -/
structure Unused (s : Shared) (h : String) (checks : List Check) : Prop where
  handedOut : ∀ t, s.handedOut h = some t → t + removeTimeout ≤ s.now
  streams : .streams ∉ checks → ∀ x ∈ s.streams, x.infoHash ≠ h
  leases : .leases ∉ checks → ∀ lease ∈ s.leases, lease.1.1 = h → lease.2 ≤ s.now

theorem Unused.not_inUse {s : Shared} {h : String} (hs : Unused s h []) : ¬ InUse s h := by
  intro huse
  rcases huse with ⟨x, hx, heq⟩ | ⟨lease, hlease, heq, hnow⟩ | ⟨t, ht, hnow⟩
  · exact hs.streams List.not_mem_nil x hx heq
  · have hle := hs.leases List.not_mem_nil lease hlease heq
    omega
  · have hle := hs.handedOut t ht
    omega

/-- The stretch takes the torrent up: it gets the engine, or adds a stream or a lease. -/
def Instr.takesUp (s : Shared) (h : String) : Instr → Bool
  | .getEngine h' | .getOrAdd h' | .activateFile h' _ | .activateForPlayback h' _
  | .activateMultifile h' _ | .refreshEngine h' _ _ _ | .endHlsEngine h' _ _
  | .scheduleCleanup h' _ => h' == h && (s.engine h).isSome
  | .startStream x | .endEngine x _ _ => x.infoHash == h && (s.engine h).isSome
  | .countFile x => x.infoHash == h
  | .refreshLease h' f _ now existing => h' == h && !(existing && !s.leaseActive (h', f) now)
  | _ => false

/-- The loop is about to remove the torrent, as far as it knows. -/
def Instr.dooms (h : String) : Instr → Bool
  | .scanNext _ _ removing => removing.contains h
  | .check _ h' _ busy (.remove _ removing) => removing.contains h || h' == h && !busy
  | .removeEngines hs => hs.contains h
  | .removeBackend h' => h' == h
  | _ => false

/-- What the loop has found. -/
def Sound (s : Shared) : Instr → Prop
  | .expireLeases now | .scanLock now => now ≤ s.now
  | .scanNext _ now removing => now ≤ s.now ∧ ∀ h ∈ removing, Unused s h []
  | .check checks h now busy (.remove _ removing) =>
      now ≤ s.now ∧ (∀ h ∈ removing, Unused s h []) ∧ (busy = false → Unused s h checks)
  | .removeEngines hs => ∀ h ∈ hs, Unused s h []
  | .removeBackend h => Unused s h []
  | _ => True

/-- **The condition.**  No torrent is taken up from the moment the loop finds its engine unaccessed
to its removal. -/
def Undisturbed (w : World) : Action → Prop
  | .run _ k _ => ∀ h, k.takesUp w.shared h = true → TaskSystem.World.pending w (Instr.dooms h) = 0
  | _ => True

/-- Nothing about the torrent that keeps it is added, and time does not go back. -/
structure Leaves (s s' : Shared) (h : String) : Prop where
  now : s.now ≤ s'.now
  handedOut : s'.handedOut h = s.handedOut h
  streams : ∀ x ∈ s'.streams, x.infoHash = h → x ∈ s.streams
  leases : ∀ lease ∈ s'.leases, lease.1.1 = h → lease ∈ s.leases

theorem Unused.mono {s s' : Shared} {h : String} {checks : List Check} (hs : Unused s h checks)
    (hleaves : Leaves s s' h) : Unused s' h checks := by
  have hnow := hleaves.now
  constructor
  · intro t ht
    have hle := hs.handedOut t (hleaves.handedOut ▸ ht)
    omega
  · intro hcheck x hx heq
    exact hs.streams hcheck x (hleaves.streams x hx heq) heq
  · intro hcheck lease hlease heq
    have hle := hs.leases hcheck lease (hleaves.leases lease hlease heq) heq
    omega

/-- What the loop has found stays true, if no torrent that it is about to remove is taken up. -/
theorem Sound.mono {s s' : Shared} {k : Instr} (hs : Sound s k) (hnow : s.now ≤ s'.now)
    (hleaves : ∀ h, k.dooms h = true → Leaves s s' h) : Sound s' k := by
  cases k with
  | expireLeases now | scanLock now => exact Nat.le_trans hs hnow
  | scanNext todo now removing =>
    refine ⟨Nat.le_trans hs.1 hnow, fun h hin => ?_⟩
    exact (hs.2 h hin).mono (hleaves h (by simpa [Instr.dooms] using hin))
  | check checks h now busy goal =>
    cases goal with
    | remove todo removing =>
      obtain ⟨hle, hremoving, hfree⟩ := hs
      refine ⟨Nat.le_trans hle hnow, fun h' hin => ?_, fun hbusy => ?_⟩
      · exact (hremoving h' hin).mono (hleaves h' (by simp [Instr.dooms, hin]))
      · exact (hfree hbusy).mono (hleaves h (by simp [Instr.dooms, hbusy]))
    | _ => trivial
  | removeEngines hs' =>
    intro h hin
    exact (hs h hin).mono (hleaves h (by simpa [Instr.dooms] using hin))
  | removeBackend h => exact Unused.mono hs (hleaves h (by simp [Instr.dooms]))
  | _ => trivial

/-! ### What requests leave alone -/

theorem getEngine_handedOut {s : Shared} {h h' : String}
    (hnot : (h' == h && (s.engine h).isSome) = false) :
    (s.getEngine h').handedOut h = s.handedOut h := by
  cases hfound : s.engine h' with
  | none => simp [Shared.getEngine, hfound]
  | some a =>
    have hne : h ≠ h' := by
      intro heq
      simp [heq, hfound] at hnot
    simp [Shared.getEngine, hfound, hne]

namespace Instr

variable {k : Instr} {s : Shared} {h : String}

theorem run_handedOut (hk : k.takesUp s h = false) (b : Answer) :
    (k.run s b).shared.handedOut h = s.handedOut h := by
  cases k with
  | getEngine h' | getOrAdd h' | activateForPlayback h' _ | refreshEngine h' _ _ _
  | endHlsEngine h' _ _ | scheduleCleanup h' _ => exact getEngine_handedOut hk
  | startStream x => exact getEngine_handedOut hk
  | endEngine x _ _ =>
    dsimp only [run, runEndEngine]
    split <;> exact getEngine_handedOut hk
  | activateFile h' f =>
    dsimp only [run, runActivateFile]
    split
    · rfl
    · exact getEngine_handedOut hk
  | activateMultifile h' f =>
    dsimp only [run, runActivateMultifile]
    split
    · rfl
    · exact getEngine_handedOut hk
  | check checks h now busy goal => rw [run, runCheck_shared]
  | scanNext todo now removing =>
    obtain ⟨n, hn⟩ := runScanNext_shared s todo now removing
    rw [run, hn]
  | idleNext todo now =>
    obtain ⟨n, hn⟩ := runIdleNext_shared s todo now
    rw [run, hn]
  | resumeNext todo =>
    rw [run]
    rcases runResumeNext_shared s todo with ⟨n, hn⟩ | ⟨a, ha⟩
    · rw [hn]
    · rw [ha]
      rfl
  | pauseStats h a delayed =>
    dsimp only [run, runPauseStats]
    cases delayed <;> (repeat' split) <;> rfl
  | _ =>
    dsimp [run] <;> (repeat' split) <;> rfl

theorem mem_streams_run (hk : k.takesUp s h = false) (b : Answer) :
    ∀ x ∈ (k.run s b).shared.streams, x.infoHash = h → x ∈ s.streams := by
  intro x hx heq
  cases k with
  | countFile y =>
    rcases List.mem_cons.mp hx with rfl | hx
    · simp [takesUp, heq] at hk
    · exact hx
  | dropGuard y => exact List.mem_of_mem_erase hx
  | _ =>
    rw [run_streams _ _ rfl] at hx
    exact hx

/-- A lease is put in the place of the old one, unless only a lease there is would be refreshed. -/
theorem refreshLease_leases (s : Shared) (b : Answer) (h : String) (f : ℕ) (a : Option ℕ) (now : ℕ)
    (existing : Bool) :
    ∃ expires, ((Instr.refreshLease h f a now existing).run s b).shared.leases =
      if existing && !s.leaseActive (h, f) now then s.leases.filter fun lease => lease.1 != (h, f)
      else ((h, f), expires) :: s.leases.filter fun lease => lease.1 != (h, f) := by
  refine ⟨now + if a.isSome && s.native then nativeLeaseTtl else leaseTtl, ?_⟩
  dsimp only [run, runRefreshLease]
  (repeat' split) <;> rfl

theorem mem_leases_run (hk : k.takesUp s h = false) (b : Answer) :
    ∀ lease ∈ (k.run s b).shared.leases, lease.1.1 = h → lease ∈ s.leases := by
  intro lease hlease heq
  cases k with
  | retainLeases h' f | endHls h' f | expireLeases now => exact (List.mem_filter.mp hlease).1
  | refreshLease h' f a now existing =>
    obtain ⟨expires, hleases⟩ := refreshLease_leases s b h' f a now existing
    rw [hleases] at hlease
    cases hgone : (existing && !s.leaseActive (h', f) now) with
    | true =>
      rw [hgone, if_pos rfl] at hlease
      exact (List.mem_filter.mp hlease).1
    | false =>
      rw [hgone, if_neg Bool.false_ne_true] at hlease
      rcases List.mem_cons.mp hlease with rfl | hold
      · exact absurd heq (by simpa [takesUp, hgone] using hk)
      · exact (List.mem_filter.mp hold).1
  | _ =>
    rw [run_leases _ _ rfl] at hlease
    exact hlease

/-- **Who does not take a torrent up leaves it alone.** -/
theorem leaves_run (hk : k.takesUp s h = false) (b : Answer) : Leaves s (k.run s b).shared h :=
  ⟨Nat.le_of_eq (accesses_run k s b).now.symm, run_handedOut hk b, mem_streams_run hk b, mem_leases_run hk b⟩

end Instr

/-! ### What the loop finds is so -/

/-- What the loop knows, with what it knows it by. -/
structure Watched (w : World) : Prop where
  tracked : Tracked w
  torrents : CountedTorrents w
  clocked : Clocked w.shared
  sound : ∀ k ∈ w.stacked, Sound w.shared k

section Step

variable {w : World} {i : ℕ} {k : Instr} {b : Answer}

/-- Without a count there is no stream. -/
theorem CountedTorrents.no_stream (hw : CountedTorrents w) {h : String} (hnone : h ∉ w.shared.activeStreams) :
    ∀ x ∈ w.shared.streams, x.infoHash ≠ h := by
  intro x hx heq
  have hcount := hw h
  have hpos : 0 < w.shared.streams.countP (OpenStream.onTorrent h) :=
    List.countP_pos_iff.mpr ⟨x, hx, by simp [OpenStream.onTorrent, heq]⟩
  rw [List.count_eq_zero.mpr hnone] at hcount
  omega

/-- **A check finds what it looks for.** -/
theorem Unused.check (hw : CountedTorrents w) {h : String} {c : Check} {checks : List Check} {now : ℕ}
    (hs : Unused w.shared h (c :: checks)) (hnow : now ≤ w.shared.now)
    (hfound : w.shared.active h now c = false) : Unused w.shared h checks := by
  constructor
  · exact hs.handedOut
  · intro hcheck
    by_cases hc : c = .streams
    · subst hc
      exact hw.no_stream (by simpa [Shared.active] using hfound)
    · exact hs.streams (by simp [hcheck, Ne.symm hc])
  · intro hcheck
    by_cases hc : c = .leases
    · subst hc
      intro lease hlease heq
      by_contra hlt
      have hactive : w.shared.active h now .leases = true :=
        List.any_eq_true.mpr ⟨lease, hlease, by simp [heq]; omega⟩
      rw [hfound] at hactive
      cases hactive
    · exact hs.leases (by simp [hcheck, Ne.symm hc])

/-- What comes of a row of checks for the removal. -/
theorem sound_finishChecks {s : Shared} {h : String} {now : ℕ} {busy : Bool} {todo removing : List String}
    (hnow : now ≤ s.now) (hremoving : ∀ h ∈ removing, Unused s h []) (hfree : busy = false → Unused s h []) :
    ∀ k ∈ (Instr.finishChecks s h now busy (.remove todo removing)).next, Sound s k := by
  intro k hk
  obtain rfl := List.mem_singleton.mp hk
  refine ⟨hnow, fun h' hin => ?_⟩
  cases hbusy : busy with
  | true =>
    rw [hbusy] at hin
    exact hremoving h' hin
  | false =>
    rw [hbusy] at hin
    rcases List.mem_append.mp hin with hin | hin
    · exact hremoving h' hin
    · obtain rfl := List.mem_singleton.mp hin
      exact hfree hbusy

theorem sound_check (hw : CountedTorrents w) {checks : List Check} {h : String} {now : ℕ} {busy : Bool}
    {goal : Goal} (hs : Sound w.shared (.check checks h now busy goal)) :
    ∀ k ∈ ((Instr.check checks h now busy goal).run w.shared b).next, Sound w.shared k := by
  intro k hk
  cases goal with
  | pause | idle _ =>
    -- these rows do not put anything on the list
    dsimp only [Instr.run, Instr.runCheck, Instr.finishChecks] at hk
    (repeat' split at hk) <;> simp at hk
    all_goals
      first
        | (subst hk; trivial)
        | (rcases hk with rfl | rfl <;> trivial)
  | remove todo removing =>
    obtain ⟨hnow, hremoving, hfree⟩ := hs
    cases checks with
    | nil => exact sound_finishChecks hnow hremoving hfree k hk
    | cons c checks =>
      have hfound : (busy || w.shared.active h now c) = false → Unused w.shared h checks := by
        intro hbusy
        rw [Bool.or_eq_false_iff] at hbusy
        exact (hfree hbusy.1).check hw hnow hbusy.2
      dsimp only [Instr.run, Instr.runCheck] at hk
      split at hk
      · next hnil =>
        subst hnil
        exact sound_finishChecks hnow hremoving hfound k hk
      · obtain rfl := List.mem_singleton.mp hk
        exact ⟨hnow, hremoving, hfound⟩

theorem sound_scanNext (hclocked : Clocked w.shared) {todo removing : List String} {now : ℕ}
    (hs : Sound w.shared (.scanNext todo now removing)) :
    ∀ k ∈ ((Instr.scanNext todo now removing).run w.shared b).next, Sound w.shared k := by
  intro k hk
  obtain ⟨hnow, hremoving⟩ := hs
  cases todo with
  | nil =>
    dsimp only [Instr.run, Instr.runScanNext, goOn] at hk
    split at hk
    · obtain rfl := List.mem_singleton.mp hk
      trivial
    · simp at hk
      rcases hk with rfl | rfl
      · exact hremoving
      · trivial
  | cons h todo =>
    dsimp only [Instr.run, Instr.runScanNext, goOn] at hk
    split at hk
    · obtain rfl := List.mem_singleton.mp hk
      exact ⟨hnow, hremoving⟩
    · next a hengine =>
      split at hk
      · obtain rfl := List.mem_singleton.mp hk
        exact ⟨hnow, hremoving⟩
      · next hold =>
        obtain rfl := List.mem_singleton.mp hk
        refine ⟨hnow, hremoving, fun _ => ⟨?_, ?_, ?_⟩⟩
        · intro t ht
          have haccessed := hclocked.accessed h a t hengine ht
          omega
        · intro hnot
          exact absurd (by decide) hnot
        · intro hnot
          exact absurd (by decide) hnot

/-- **What a stretch goes on with is sound.** -/
theorem sound_next (hw : Watched w) (hk : Sound w.shared k) (hk' : Sound (k.run w.shared b).shared k) :
    ∀ k' ∈ (k.run w.shared b).next, Sound (k.run w.shared b).shared k' := by
  intro k' hin
  cases k with
  | check checks h now busy goal =>
    rw [Instr.run, Instr.runCheck_shared]
    exact sound_check hw.torrents hk k' hin
  -- the scan reads the registry, what it passes on is about what it has seen
  | scanNext todo now removing =>
    obtain ⟨n, hn⟩ := Instr.runScanNext_shared w.shared todo now removing
    have hsound := sound_scanNext hw.clocked hk k' hin
    rw [Instr.run, hn]
    exact hsound.mono (Nat.le_refl _) fun _ _ => ⟨Nat.le_refl _, rfl, fun _ hx _ => hx, fun _ hl _ => hl⟩
  | loopWake =>
    obtain rfl := List.mem_singleton.mp hin
    exact Nat.le_refl _
  | expireLeases now =>
    rcases List.mem_append.mp hin with hclear | hlock
    · obtain ⟨lease, -, rfl⟩ := List.mem_map.mp hclear
      trivial
    · obtain rfl := List.mem_singleton.mp hlock
      exact hk'
  | scanLock now =>
    obtain rfl := List.mem_singleton.mp hin
    exact ⟨hk, by simp⟩
  | removeEngines hs =>
    obtain ⟨h, hh, rfl⟩ := List.mem_map.mp hin
    exact hk' h hh
  | pauseWake h =>
    dsimp only [Instr.run] at hin
    split at hin
    · cases hin
    · obtain rfl := List.mem_singleton.mp hin
      trivial
  | idleNext todo now =>
    dsimp only [Instr.run, Instr.runIdleNext] at hin
    (repeat' split at hin) <;> obtain rfl := List.mem_singleton.mp hin <;> trivial
  | _ =>
    have hleads := Instr.mem_next _ _ hin
    cases k' with
    | expireLeases _ | scanLock _ | scanNext _ _ _ | removeEngines _ | removeBackend _
    | check _ _ _ _ _ => exact absurd hleads Bool.false_ne_true
    | _ => trivial

theorem sound_spawned {s : Shared} : ∀ k' ∈ (k.run w.shared b).spawned.flatten, Sound s k' := by
  intro k' hin
  have hstarts := Instr.mem_spawned _ _ hin
  cases k' with
  | expireLeases _ | scanLock _ | scanNext _ _ _ | removeEngines _ | removeBackend _
  | check _ _ _ _ _ => cases k <;> exact absurd hstarts Bool.false_ne_true
  | _ => trivial

/-- **What the loop has found stays true.** -/
theorem Watched.run (hw : Watched w) (hg : (engineFs false).system.guard w (.run i k b))
    (hc : Undisturbed w (.run i k b)) : Watched ((engineFs false).system.effect w (.run i k b)) := by
  have hleaves : ∀ k' ∈ w.stacked, ∀ h, k'.dooms h = true → Leaves w.shared (k.run w.shared b).shared h := by
    intro k' hk' h hdooms
    refine Instr.leaves_run ?_ b
    by_contra htakes
    have hnone := hc h (by simpa using htakes)
    rw [TaskSystem.World.pending, List.countP_eq_zero] at hnone
    exact hnone k' hk' hdooms
  have haccesses := Instr.accesses_run k w.shared b
  have hmono : ∀ k' ∈ w.stacked, Sound (k.run w.shared b).shared k' := fun k' hk' =>
    (hw.sound k' hk').mono (Nat.le_of_eq haccesses.now.symm) (hleaves k' hk')
  have hin := TaskSystem.mem_of_run hg
  constructor
  · exact hw.tracked.run hg
  · exact hw.torrents.run hw.tracked hg
  · exact hw.clocked.of_accesses haccesses
  · exact TaskSystem.forall_run hmono (sound_next hw (hw.sound k hin) (hmono k hin)) sound_spawned

theorem Watched.arrive (hw : Watched w) {call : Call}
    (hg : (engineFs false).system.guard w (.arrive call)) :
    Watched ((engineFs false).system.effect w (.arrive call)) := by
  -- an arriving call takes no engine out, and the clock only goes on
  have hleaves : ∀ h, Leaves w.shared (call.arrive w.shared).1 h := by
    intro h
    cases call with
    | endStream x =>
      exact ⟨Nat.le_refl _, rfl, fun _ hx _ => List.mem_of_mem_erase hx, fun _ hl _ => hl⟩
    | tick seconds => exact ⟨Nat.le_add_right _ _, rfl, fun _ hx _ => hx, fun _ hl _ => hl⟩
    | _ => exact ⟨Nat.le_refl _, rfl, fun _ hx _ => hx, fun _ hl _ => hl⟩
  constructor
  · exact hw.tracked.arrive hg
  · exact hw.torrents.step hw.tracked hg trivial
  · cases call with
    | tick seconds =>
      constructor
      · intro h t ht
        exact Nat.le_trans (hw.clocked.past h t ht) (Nat.le_add_right _ _)
      · exact hw.clocked.accessed
    | openReader a | closeReader a =>
      apply hw.clocked.of_accesses
      dsimp only [shared_arrive, Call.arrive]
      apply (Accesses.same _).update
      intro engine
      rfl
    | _ => exact hw.clocked.of_accesses ((Accesses.same _).of_eq rfl rfl rfl rfl)
  · refine TaskSystem.forall_arrive (fun k hk => (hw.sound k hk).mono ?_ fun h _ => hleaves h) ?_
    · cases call with
      | tick seconds => exact Nat.le_add_right _ _
      | _ => exact Nat.le_refl _
    · intro k hk
      cases call with
      | streamVideo h f hls =>
        rcases List.mem_pair.mp hk with rfl | rfl <;> trivial
      | openReader _ | closeReader _ | tick _ => cases hk
      | setSeeding enabled =>
        obtain rfl := Call.mem_setSeeding hk
        trivial
      | _ =>
        obtain rfl := List.mem_singleton.mp hk
        trivial

theorem watched_new (native : Bool) (restored : List String) : Watched (World.new native restored) := by
  refine ⟨tracked_new native restored, fun _ => rfl, ⟨?_, ?_⟩, ?_⟩
  · intro h t ht
    cases ht
  · intro h a t _ ht
    cases ht
  · intro k hk
    obtain rfl : k = .loop := by simpa [World.new, TaskSystem.World.stacked] using hk
    trivial

/-- **In every run that meets the condition** no torrent in use is removed, from the map or from the
session. -/
theorem spared {native : Bool} {restored : List String} {w : World}
    (hrun : (engineFs false).system.Reach Undisturbed (World.new native restored) w) :
    (∀ i hs b, (engineFs false).system.guard w (.run i (.removeEngines hs) b) → ∀ h ∈ hs, ¬ InUse w.shared h) ∧
      ∀ i h b, (engineFs false).system.guard w (.run i (.removeBackend h) b) → ¬ InUse w.shared h := by
  have hw : Watched w := by
    refine hrun.invariant (watched_new native restored) ?_
    intro u a hu hg hc
    cases a with
    | run i k b => exact hu.run hg hc
    | arrive call => exact hu.arrive hg
    | drop i =>
      obtain ⟨stack, -, hdrops, -⟩ := hg
      cases hdrops
  constructor
  · intro i hs b hg h hin
    exact (hw.sound _ (TaskSystem.mem_of_run hg) h hin).not_inUse
  · intro i h b hg
    exact Unused.not_inUse (hw.sound _ (TaskSystem.mem_of_run hg))

end Step

/-- The loop, up to the look at the one engine, which has not been accessed for a while. -/
def scanned : List Action :=
  [.run 0 .loop .fine, .run 0 (.sleep 15) .fine, .arrive (.tick 400), .run 0 (.sleepUntil 15) .fine,
    .run 0 .loopWake .fine, .run 0 (.expireLeases 400) .fine,
    .run 0 (.scanLock 400) { Answer.fine with order := ["a"] },
    .run 0 (.scanNext ["a"] 400 []) .fine]

/-- The checks, which find nothing. -/
def listed : List Action :=
  [.run 0 (.check removeChecks "a" 400 false (.remove [] [])) .fine,
    .run 0 (.check [.fileStreams, .leases, .activeFile, .selection] "a" 400 false (.remove [] [])) .fine,
    .run 0 (.check [.leases, .activeFile, .selection] "a" 400 false (.remove [] [])) .fine,
    .run 0 (.check [.activeFile, .selection] "a" 400 false (.remove [] [])) .fine,
    .run 0 (.check [.selection] "a" 400 false (.remove [] [])) .fine,
    .run 0 (.scanNext [] 400 ["a"]) .fine]

/-- A stream on another torrent. -/
def other : OpenStream := ⟨0, "b", 0, false⟩

/-- A request gets the engine before the loop looks at it, and there is a stream on the other torrent
when it does. -/
def visited : List Action :=
  [.arrive (.getEngine "a"),
    .run 1 (.getEngine "a") .fine,
    .run 0 .loop .fine,
    .run 0 (.sleep 15) .fine,
    .arrive (.tick 400),
    .arrive (.startStream "b" 0),
    .run 2 (.startStream other) .fine,
    .run 2 (.getEngine "b") .fine,
    .run 2 (.setActiveFile "b" 0) .fine,
    .run 2 (.countStream other) .fine,
    .run 2 (.countFile other) .fine,
    .run 0 (.sleepUntil 15) .fine,
    .run 0 .loopWake .fine,
    .run 0 (.expireLeases 400) .fine,
    .run 0 (.scanLock 400) { Answer.fine with order := ["a", "b"] },
    .run 0 (.scanNext ["a", "b"] 400 []) .fine,
    .run 0 (.check removeChecks "a" 400 false (.remove ["b"] [])) .fine,
    .run 0 (.check [.fileStreams, .leases, .activeFile, .selection] "a" 400 false (.remove ["b"] [])) .fine,
    .run 0 (.check [.leases, .activeFile, .selection] "a" 400 false (.remove ["b"] [])) .fine,
    .run 0 (.check [.activeFile, .selection] "a" 400 false (.remove ["b"] [])) .fine,
    .run 0 (.check [.selection] "a" 400 false (.remove ["b"] [])) .fine,
    .run 0 (.scanNext ["b"] 400 ["a"]) .fine,
    .run 0 (.scanNext [] 400 ["a"]) .fine]

/-- The torrent that is removed has been asked for, and the other one is in use. -/
theorem spared_visited : ∃ w, (engineFs false).system.Reach Undisturbed (World.new true ["a", "b"]) w ∧
    (engineFs false).system.guard w (.run 0 (.removeEngines ["a"]) .fine) ∧
      ¬ InUse w.shared "a" ∧ InUse w.shared "b" := by
  have hquiet : ∀ {w : World} {i : ℕ} {k : Instr} {b : Answer},
      (∀ h, k.takesUp w.shared h = false) → Undisturbed w (.run i k b) := by
    intro w i k b hnot h htakes
    rw [hnot h] at htakes
    cases htakes
  obtain ⟨w, hpath, hguard, hopen⟩ : ∃ w,
      (engineFs false).system.Path Undisturbed (World.new true ["a", "b"]) visited w ∧
        (engineFs false).system.guard w (.run 0 (.removeEngines ["a"]) .fine) ∧
          ∃ x ∈ w.shared.streams, x.infoHash = "b" :=
    ⟨_, .cons trivial trivial (.cons (by decide) (fun _ _ => rfl)
      (.cons (by decide) (hquiet fun _ => rfl) (.cons (by decide) (hquiet fun _ => rfl)
      (.cons trivial trivial (.cons trivial trivial (.cons (by decide) (fun _ _ => rfl)
      (.cons (by decide) (fun _ _ => rfl) (.cons (by decide) (hquiet fun _ => rfl)
      (.cons (by decide) (hquiet fun _ => rfl) (.cons (by decide) (fun _ _ => rfl)
      (.cons (by decide) (hquiet fun _ => rfl) (.cons (by decide) (hquiet fun _ => rfl)
      (.cons (by decide) (hquiet fun _ => rfl) (.cons (by decide) (hquiet fun _ => rfl)
      (.cons (by decide) (hquiet fun _ => rfl) (.cons (by decide) (hquiet fun _ => rfl)
      (.cons (by decide) (hquiet fun _ => rfl) (.cons (by decide) (hquiet fun _ => rfl)
      (.cons (by decide) (hquiet fun _ => rfl) (.cons (by decide) (hquiet fun _ => rfl)
      (.cons (by decide) (hquiet fun _ => rfl) (.cons (by decide) (hquiet fun _ => rfl)
      (.nil _))))))))))))))))))))))), by decide⟩
  exact ⟨w, ⟨_, hpath⟩, hguard, (spared ⟨_, hpath⟩).1 0 ["a"] .fine hguard "a" (by decide), Or.inl hopen⟩

/-- A stream that is started. -/
def called : OpenStream := ⟨0, "a", 0, false⟩

/-- What `on_stream_start` does for it, up to the counts. -/
def startedStream : List Action :=
  [.arrive (.startStream "a" 0), .run 1 (.startStream called) .fine, .run 1 (.getEngine "a") .fine,
    .run 1 (.setActiveFile "a" 0) .fine, .run 1 (.countStream called) .fine,
    .run 1 (.countFile called) .fine]

/-- A stream that is started between the look and the removal. -/
theorem removed_in_use : ∃ w, (engineFs false).system.Reach GuardedSystem.anyStep (World.new true ["a"]) w ∧
    (engineFs false).system.guard w (.run 0 (.removeEngines ["a"]) .fine) ∧ InUse w.shared "a" := by
  obtain ⟨w, hw, hguard, hopen⟩ :
      ∃ w, (engineFs false).system.Reach GuardedSystem.anyStep (World.new true ["a"]) w ∧
        ((engineFs false).system.guard w (.run 0 (.removeEngines ["a"]) .fine) ∧
          ∃ x ∈ w.shared.streams, x.infoHash = "a") :=
    GuardedSystem.exists_reach_of_exec (scanned ++ listed ++ startedStream) (by decide)
  exact ⟨w, hw, hguard, Or.inl hopen⟩

end StreamServer.EngineFs
