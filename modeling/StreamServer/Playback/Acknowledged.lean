import StreamServer.Playback.Tasks

/-!
# Acknowledged file priorities

The coordinator remembers the vector of file priorities the native torrent has
acknowledged last, and skips an update that asks for the same vector again.  The
memory is truthful as long as every update that has been handed to the torrent is
also recorded.  Two exits of the code forget to: an update that ends in an error,
and one whose caller finds, when it returns, that its generation has been
superseded.  Both leave the old vector in the memory while the torrent has the
new one.

## Main definitions

* `World.InForce` — the native torrent has the vector.
* `World.Truthful` — it has the acknowledged one.
* `World.RecordsUpdates` — the condition on a step: what is handed over is recorded,
  unless nothing is acknowledged anyway.
* `World.AckInvariant` — the invariant: what the holder of the lock knows.

## Main results

* `ackInvariant_step` — every step that meets the condition keeps the invariant.
* `acknowledged_truthful` — **the acknowledged vector is in force whenever the lock
  is free, and the desired one when an activation returns.**

## References

`enginefs/src/backend/libtorrent/playback.rs`, `activate_selection`,
`perform_pause`, `apply_file_priorities`.
-/

namespace StreamServer.Playback

/-! ### What the holder of the lock has handed over -/

/-- The vector the holder knows to be in force: it has been handed over, or found
acknowledged. -/
def Critical.vector (L : TorrentLayout) : Critical → Option (List ℤ)
  | .update v .acknowledge _ => some v
  | .pause _ (.finish v applied) => if applied || v ≠ [] then some v else none
  | .activate act .record | .activate act .hotWindow | .activate act .verify
  | .activate act .resume | .activate act .firstPiece | .changes _ _ (.activation act) =>
      some (act.desired L)
  | _ => none

/-- A vector has been handed over and is not recorded yet. -/
def Critical.unrecorded : Critical → Bool
  | .update _ .acknowledge _ | .pause _ (.finish _ true) | .activate _ .record => true
  | _ => false

/-- The holder has read the layout. -/
def Critical.hasLayout : Critical → Bool
  | .activate _ _ | .update _ _ _ | .changes _ _ (.activation _) => true
  | .pause _ (.compare zeros) => zeros ≠ []
  | .pause _ (.finish zeros applied) => applied || zeros ≠ []
  | _ => false

/-- An activation waits for the lock. -/
def LockRequest.isActivate : LockRequest → Bool
  | .activate _ => true
  | _ => false

/-- Whoever has not read the layout has handed over nothing. -/
theorem Critical.of_hasLayout {c : Critical} (h : c.hasLayout = false) (L : TorrentLayout) :
    c.vector L = none ∧ c.unrecorded = false ∧ ∀ v pc caller, c ≠ .update v pc caller := by
  cases c with
  | pause p pc =>
    cases pc with
    | finish zeros applied =>
      have hnone : ¬ (applied || zeros ≠ []) = true := by simpa [hasLayout] using h
      cases applied with
      | true => cases h
      | false => exact ⟨if_neg hnone, rfl, by rintro _ _ _ ⟨⟩⟩
    | _ => exact ⟨rfl, rfl, by rintro _ _ _ ⟨⟩⟩
  | changes baseline cs caller =>
    cases caller with
    | activation act => cases h
    | reader command => exact ⟨rfl, rfl, by rintro _ _ _ ⟨⟩⟩
  | activate act pc => cases h
  | update v pc caller => cases h
  | _ => exact ⟨rfl, rfl, by rintro _ _ _ ⟨⟩⟩

/-- The loading of the metadata has handed its vector over. -/
def Loader.submitted : Loader → Bool
  | .updating .acknowledge | .recording => true
  | _ => false

namespace World

/-- The native torrent has the vector, or is a seed and ignores it. -/
def InForce (s : World) (v : List ℤ) : Prop :=
  s.native.isSeeding = false → s.native.submitted = some v ∧ s.native.filePriorities = v

/-- The acknowledged vector is in force. -/
def Truthful (s : World) : Prop := ∀ v, s.state.acknowledgedPriorities = some v → s.InForce v

/-- Nothing can be recorded falsely: there is no acknowledged vector to go stale,
or the torrent is a seed. -/
def NothingAtStake (s : World) : Prop :=
  s.state.acknowledgedPriorities = none ∨ s.native.isSeeding = true

/-- **The condition.**  A step that gives up a vector already handed over — an
update that ends in an error, or a caller whose generation has been superseded —
finds nothing at stake; and a background reader that joins the active generation
finds its vector acknowledged. -/
def RecordsUpdates (s : World) : Action → Prop
  | .update _ _ (.fail .acknowledge) => s.NothingAtStake
  | .activate act .record => s.state.generation = act.generation ∨ s.NothingAtStake
  | .pause p (.finish _ true) => s.state.generation = p.generation ∨ s.NothingAtStake
  | .activate act .check =>
      act.complete = false → act.selection.subordinate = true →
        s.state.IsCurrent act.start.fileIdx act.generation →
        s.state.acknowledgedPriorities = some (act.desired s.native.layout) ∨
          s.native.isSeeding = true
  | _ => True

instance (s : World) : Decidable s.NothingAtStake := inferInstanceAs (Decidable (_ ∨ _))

instance (s : World) (a : Action) : Decidable (s.RecordsUpdates a) := by
  unfold RecordsUpdates
  split <;> infer_instance

/-! ### The invariant -/

/-- Between submission and record the holder knows the vector in force; otherwise
the acknowledged one is. -/
structure AckInvariant (s : World) : Prop where
  truthful : (∀ c, s.operation = some c → c.unrecorded = false) → s.Truthful
  vector : ∀ c v, s.operation = some c → c.vector s.native.layout = some v → s.InForce v
  desired : ∀ v pc act, s.operation = some (.update v pc (.activation act)) →
    v = act.desired s.native.layout
  unloaded : s.layoutLoaded = false →
    s.state.acknowledgedPriorities = none ∧ (∀ c, s.operation = some c → c.hasLayout = false) ∧
      ∀ r ∈ s.lockQueue, r.isActivate = false
  recording : s.loader.submitted = true → s.native.layout.files ≠ [] →
    s.InForce (List.replicate s.native.layout.files.length 0)

end World

/-- The torrents agree on their files. -/
structure Native.SameFiles (n m : Native) : Prop where
  layout : m.layout = n.layout
  isSeeding : m.isSeeding = false → n.isSeeding = false
  filePriorities : m.filePriorities = n.filePriorities
  submitted : m.submitted = n.submitted

theorem Native.SameFiles.refl (n : Native) : n.SameFiles n := ⟨rfl, id, rfl, rfl⟩

theorem Native.sameFiles_applyChanges (n : Native) (baseline : ℤ)
    (changes : List PiecePriorityChange) : n.SameFiles (n.applyChanges baseline changes) :=
  ⟨by simp, by simp, by simp, by simp⟩

namespace World

theorem InForce.congr {s t : World} {v : List ℤ} (h : s.InForce v)
    (hn : s.native.SameFiles t.native) : t.InForce v := by
  intro hseed
  rw [hn.submitted, hn.filePriorities]
  exact h (hn.isSeeding hseed)

/-- The holder's part of the invariant, with what it does next. -/
structure HolderFacts (s : World) (d : Critical) : Prop where
  truthful : d.unrecorded = false → s.Truthful
  vector : ∀ v, d.vector s.native.layout = some v → s.InForce v
  desired : ∀ v pc act, d = .update v pc (.activation act) → v = act.desired s.native.layout
  hasLayout : s.layoutLoaded = false → d.hasLayout = false

theorem AckInvariant.holder {s : World} (h : s.AckInvariant) {c : Critical}
    (hop : s.operation = some c) : s.HolderFacts c where
  truthful hc := h.truthful fun d hd => by
    rw [hop, Option.some.injEq] at hd
    exact hd ▸ hc
  vector v hv := h.vector c v hop hv
  desired v pc act hd := h.desired v pc act (hd ▸ hop)
  hasLayout hl := (h.unloaded hl).2.1 c hop

theorem Truthful.congr {s t : World} (h : s.Truthful)
    (hack : t.state.acknowledgedPriorities = s.state.acknowledgedPriorities)
    (hn : s.native.SameFiles t.native) : t.Truthful :=
  fun v hv => (h v (hack ▸ hv)).congr hn

/-- With nothing at stake, whatever is acknowledged is in force. -/
theorem NothingAtStake.truthful {s : World} (h : s.NothingAtStake) : s.Truthful := by
  intro v hv hseed
  rcases h with h | h
  · rw [h] at hv; cases hv
  · rw [h] at hseed; cases hseed

/-- A holder that has handed over nothing. -/
theorem Truthful.holderFacts {s : World} (h : s.Truthful) {d : Critical}
    (hv : d.vector s.native.layout = none)
    (hd : ∀ v pc act, d ≠ .update v pc (.activation act))
    (hl : s.layoutLoaded = false → d.hasLayout = false) : s.HolderFacts d where
  truthful _ := h
  vector v hv' := by rw [hv] at hv'; cases hv'
  desired v pc act hd' := absurd hd' (hd v pc act)
  hasLayout := hl

/-- What a step has to establish while the layout stays as it is. -/
theorem AckInvariant.load {s t : World} (h : s.AckInvariant)
    (hlayout : t.layoutLoaded = s.layoutLoaded)
    (hrec : t.loader.submitted = true → t.native.layout.files ≠ [] →
      t.InForce (List.replicate t.native.layout.files.length 0))
    (hack : s.layoutLoaded = false → t.state.acknowledgedPriorities = none)
    (hqueue : ∀ r ∈ t.lockQueue, r ∈ s.lockQueue ∨ (r.isActivate = true → s.layoutLoaded = true))
    (hfree : t.operation = none → t.Truthful)
    (hheld : ∀ d, t.operation = some d → t.HolderFacts d) : t.AckInvariant := by
  constructor
  · intro hop
    cases hd : t.operation with
    | none => exact hfree hd
    | some d => exact (hheld d hd).truthful (hop d hd)
  · exact fun c v hc hv => (hheld c hc).vector v hv
  · exact fun v pc act hop => (hheld _ hop).desired v pc act rfl
  · intro hl
    refine ⟨hack (hlayout ▸ hl), fun c hc => (hheld c hc).hasLayout hl, fun r hr => ?_⟩
    rcases hqueue r hr with hr | hr
    · exact (h.unloaded (hlayout ▸ hl)).2.2 r hr
    · by_contra hact
      rw [Bool.not_eq_false] at hact
      rw [hlayout, hr hact] at hl
      cases hl
  · exact hrec

/-- What a step outside the loading of the metadata has to establish. -/
theorem AckInvariant.next {s t : World} (h : s.AckInvariant)
    (hn : s.native.SameFiles t.native) (hlayout : t.layoutLoaded = s.layoutLoaded)
    (hload : t.loader = s.loader)
    (hack : s.layoutLoaded = false → t.state.acknowledgedPriorities = none)
    (hqueue : ∀ r ∈ t.lockQueue, r ∈ s.lockQueue ∨ (r.isActivate = true → s.layoutLoaded = true))
    (hfree : t.operation = none → t.Truthful)
    (hheld : ∀ d, t.operation = some d → t.HolderFacts d) : t.AckInvariant := by
  refine h.load hlayout (fun hr hfiles => ?_) hack hqueue hfree hheld
  rw [hn.layout] at hfiles ⊢
  exact (h.recording (hload ▸ hr) hfiles).congr hn

/-- A step that leaves the lock with its holder and the acknowledged vector as it
is. -/
theorem AckInvariant.keep {s t : World} (h : s.AckInvariant)
    (hack : t.state.acknowledgedPriorities = s.state.acknowledgedPriorities)
    (hn : s.native.SameFiles t.native) (hlayout : t.layoutLoaded = s.layoutLoaded)
    (hload : t.loader = s.loader)
    (hqueue : ∀ r ∈ t.lockQueue, r ∈ s.lockQueue ∨ (r.isActivate = true → s.layoutLoaded = true))
    (hop : t.operation = s.operation) : t.AckInvariant := by
  refine h.next hn hlayout hload (fun hl => hack ▸ (h.unloaded hl).1) hqueue ?_ ?_
  · intro hnone
    refine Truthful.congr (h.truthful fun c hc => ?_) hack hn
    rw [← hop, hnone] at hc
    cases hc
  · intro d hd
    have hs := h.holder (hop ▸ hd)
    exact ⟨fun hu => (hs.truthful hu).congr hack hn,
      fun v hv => (hs.vector v (hn.layout ▸ hv)).congr hn,
      fun v pc act hd => hn.layout ▸ hs.desired v pc act hd,
      fun hl => hs.hasLayout (hlayout ▸ hl)⟩

/-- The holder of the lock, who has handed over nothing it has not recorded, gives
the lock back or goes on to something that needs no vector. -/
theorem AckInvariant.idle {s t : World} (h : s.AckInvariant) (ht : s.Truthful)
    (hack : t.state.acknowledgedPriorities = s.state.acknowledgedPriorities)
    (hn : s.native.SameFiles t.native) (hlayout : t.layoutLoaded = s.layoutLoaded)
    (hload : t.loader = s.loader)
    (hqueue : ∀ r ∈ t.lockQueue, r ∈ s.lockQueue ∨ (r.isActivate = true → s.layoutLoaded = true))
    (hop : ∀ d, t.operation = some d → d.vector t.native.layout = none ∧
      (∀ v pc act, d ≠ .update v pc (.activation act)) ∧
      (s.layoutLoaded = false → d.hasLayout = false)) : t.AckInvariant := by
  have ht' : t.Truthful := ht.congr hack hn
  refine h.next hn hlayout hload (fun hl => hack ▸ (h.unloaded hl).1) hqueue (fun _ => ht') ?_
  intro d hd
  obtain ⟨hv, hu, hl⟩ := hop d hd
  exact ht'.holderFacts hv hu (fun hl' => hl (hlayout ▸ hl'))

/-! ### Every step keeps the invariant -/

section Ends

variable {s : World}

theorem AckInvariant.activationOk (h : s.AckInvariant) (ht : s.Truthful) (act : Activation) :
    (s.activationOk act).AckInvariant :=
  h.idle ht rfl (.refl _) rfl rfl (fun _ => Or.inl) (by rintro _ ⟨⟩)

theorem AckInvariant.activationErr (h : s.AckInvariant) (ht : s.Truthful) (act : Activation) :
    (s.activationErr act).AckInvariant :=
  h.idle ht rfl (.refl _) rfl rfl (fun _ => Or.inl) (by rintro _ ⟨⟩)

theorem AckInvariant.pauseOk (h : s.AckInvariant) (ht : s.Truthful) (p : Pause) :
    (s.pauseOk p).AckInvariant := by
  unfold World.pauseOk
  split
  · exact h.idle ht rfl (.refl _) rfl rfl (fun _ => Or.inl) (by rintro _ ⟨⟩)
  · exact h.idle ht rfl (.refl _) rfl rfl (fun _ => Or.inl) (by rintro _ ⟨⟩)
  · exact h.idle ht rfl (.refl _) rfl rfl (fun _ => Or.inl) (by rintro _ ⟨⟩)
  · exact h.activationOk ht _

theorem AckInvariant.pauseErr (h : s.AckInvariant) (ht : s.Truthful) (p : Pause) :
    (s.pauseErr p).AckInvariant := by
  unfold World.pauseErr
  split
  · exact h.idle ht rfl (.refl _) rfl rfl (fun _ => Or.inl) (by rintro _ ⟨⟩)
  · exact h.idle ht rfl (.refl _) rfl rfl (fun _ => Or.inl) (by rintro _ ⟨⟩)
  · exact h.idle ht rfl (.refl _) rfl rfl (fun _ => Or.inl) (by rintro _ ⟨⟩)
  · exact h.activationErr ht _

/-- The activation goes on with its vector in force. -/
theorem AckInvariant.activatePrioritized (h : s.AckInvariant) (ht : s.Truthful)
    (hloaded : s.layoutLoaded = true) {act : Activation}
    (hv : s.InForce (act.desired s.native.layout)) : (s.activatePrioritized act).AckInvariant := by
  unfold World.activatePrioritized World.activateComplete
  split
  · split
    · exact h.activationOk ht act
    · refine h.idle ht rfl (.refl _) rfl rfl ?_ (by rintro _ ⟨⟩)
      intro r hr
      rcases List.mem_append.mp hr with hr | hr
      · exact Or.inl hr
      · rw [List.mem_singleton] at hr
        subst hr
        exact Or.inr fun hact => by cases hact
  · refine h.next (.refl _) rfl rfl (fun hl => (h.unloaded hl).1) (fun _ => Or.inl)
      (by rintro ⟨⟩) ?_
    rintro _ ⟨⟩
    refine ⟨fun _ => ht, ?_, by rintro _ _ _ ⟨⟩, ?_⟩
    · rintro _ ⟨⟩
      exact hv
    · intro hl
      rw [show s.layoutLoaded = false from hl] at hloaded
      cases hloaded

/-- The step after an update that has been acknowledged. -/
theorem AckInvariant.updateDone (h : s.AckInvariant) {v : List ℤ} {pc : UpdatePc}
    {caller : Updater} (hop : s.operation = some (.update v pc caller)) (hv : s.InForce v) :
    (s.updateDone v caller).AckInvariant := by
  have hloaded : s.layoutLoaded = false → False := fun hl => by
    have := (h.holder hop).hasLayout hl
    cases this
  unfold World.updateDone
  split
  · next act =>
    refine h.next (.refl _) rfl rfl (fun hl => (h.unloaded hl).1) (fun _ => Or.inl)
      (by rintro ⟨⟩) ?_
    rintro _ ⟨⟩
    refine ⟨by rintro ⟨⟩, ?_, by rintro _ _ _ ⟨⟩, fun hl => (hloaded hl).elim⟩
    rintro _ ⟨⟩
    exact (h.desired v pc act hop) ▸ hv
  · next p =>
    refine h.next (.refl _) rfl rfl (fun hl => (h.unloaded hl).1) (fun _ => Or.inl)
      (by rintro ⟨⟩) ?_
    rintro _ ⟨⟩
    refine ⟨by rintro ⟨⟩, ?_, by rintro _ _ _ ⟨⟩, fun hl => (hloaded hl).elim⟩
    rintro _ ⟨⟩
    exact hv

/-- Applied changes, or an empty list of them, take the holder on. -/
theorem AckInvariant.changesDone (h : s.AckInvariant) (ht : s.Truthful) {caller : Changer}
    (hcaller : ∀ act, caller = .activation act →
      s.layoutLoaded = true ∧ s.InForce (act.desired s.native.layout)) :
    (s.changesDone caller).AckInvariant := by
  unfold World.changesDone
  split
  · next act =>
    obtain ⟨hloaded, hv⟩ := hcaller act rfl
    refine h.next (.refl _) rfl rfl (fun hl => (h.unloaded hl).1) (fun _ => Or.inl)
      (by rintro ⟨⟩) ?_
    rintro _ ⟨⟩
    refine ⟨fun _ => ht, ?_, by rintro _ _ _ ⟨⟩, ?_⟩
    · rintro _ ⟨⟩
      exact hv
    · intro hl
      rw [show s.layoutLoaded = false from hl] at hloaded
      cases hloaded
  · exact h.idle ht rfl (.refl _) rfl rfl (fun _ => Or.inl) (by rintro _ ⟨⟩)

theorem AckInvariant.applyNext (h : s.AckInvariant) (ht : s.Truthful) {baseline : ℤ}
    {changes : List PiecePriorityChange} {caller : Changer}
    (hcaller : ∀ act, caller = .activation act →
      s.layoutLoaded = true ∧ s.InForce (act.desired s.native.layout)) :
    (s.applyNext baseline changes caller).AckInvariant := by
  unfold World.applyNext
  split
  · exact h.changesDone ht hcaller
  · refine h.next (.refl _) rfl rfl (fun hl => (h.unloaded hl).1) (fun _ => Or.inl)
      (by rintro ⟨⟩) ?_
    rintro _ ⟨⟩
    refine ⟨fun _ => ht, ?_, by rintro _ _ _ ⟨⟩, ?_⟩
    · intro v hv
      cases caller with
      | activation act =>
        cases hv
        exact (hcaller act rfl).2
      | reader command => cases hv
    · intro hl
      cases caller with
      | activation act =>
        have hloaded := (hcaller act rfl).1
        rw [show s.layoutLoaded = false from hl] at hloaded
        cases hloaded
      | reader command => rfl

theorem AckInvariant.withState (h : s.AckInvariant) {st : TorrentPlaybackState}
    (hst : st.acknowledgedPriorities = s.state.acknowledgedPriorities) :
    ({ s with state := st } : World).AckInvariant :=
  h.keep hst (.refl _) rfl rfl (fun _ => Or.inl) rfl

theorem AckInvariant.withNative (h : s.AckInvariant) {n : Native} (hn : s.native.SameFiles n) :
    ({ s with native := n } : World).AckInvariant :=
  h.keep rfl hn rfl rfl (fun _ => Or.inl) rfl

theorem AckInvariant.replaceWindowLocked (h : s.AckInvariant) (ht : s.Truthful)
    {order : IterationOrder} {fileIdx generation streamId : ℕ}
    {assignments : List LibtorrentPiecePriority} {caller : Changer}
    (hcaller : ∀ act, caller = .activation act →
      s.layoutLoaded = true ∧ s.InForce (act.desired s.native.layout)) :
    (s.replaceWindowLocked order fileIdx generation streamId assignments caller).AckInvariant := by
  unfold World.replaceWindowLocked
  split
  · refine AckInvariant.applyNext ?_ ?_ hcaller
    · exact h.withState rfl
    · exact ht
  · exact h.changesDone ht hcaller

/-- A step of the loading that changes only how far it is. -/
theorem AckInvariant.loaderStep (h : s.AckInvariant) {l : Loader} {q : List PlaybackCommand}
    (hrec : l.submitted = true → s.native.layout.files ≠ [] →
      s.InForce (List.replicate s.native.layout.files.length 0)) :
    ({ s with loader := l, queue := q } : World).AckInvariant := by
  refine h.load rfl hrec (fun hl => (h.unloaded hl).1) (fun _ => Or.inl) ?_ ?_
  · intro hop
    exact h.truthful fun c hc => by rw [show s.operation = none from hop] at hc; cases hc
  · exact fun d hd => ⟨(h.holder hd).1, (h.holder hd).2, (h.holder hd).3, (h.holder hd).4⟩

end Ends

section Steps

variable {s : World} (h : s.AckInvariant)

include h

theorem ackInvariant_surroundings (a : SurroundingsStep) : (a.effect s).AckInvariant := by
  cases a with
  | becomeSeed =>
    exact h.keep rfl ⟨rfl, by rintro ⟨⟩, rfl, rfl⟩ rfl rfl (fun _ => Or.inl) rfl
  | _ => exact h.keep rfl ⟨rfl, id, rfl, rfl⟩ rfl rfl (fun _ => Or.inl) rfl

/-- A request leaves the acknowledged vector alone. -/
theorem ackInvariant_wait {st : TorrentPlaybackState} {r : LockRequest}
    (hst : st.acknowledgedPriorities = s.state.acknowledgedPriorities)
    (hr : r.isActivate = true → s.layoutLoaded = true) :
    ({ s with state := st, lockQueue := s.lockQueue ++ [r] } : World).AckInvariant := by
  refine h.keep hst (.refl _) rfl rfl ?_ rfl
  intro r' hr'
  rcases List.mem_append.mp hr' with hr' | hr'
  · exact Or.inl hr'
  · rw [List.mem_singleton] at hr'
    exact Or.inr (hr' ▸ hr)

theorem ackInvariant_request {a : RequestStep} (hg : a.guard s) :
    (a.effect s).AckInvariant := by
  -- a selection never changes the vector that is recorded
  have hselect : ∀ (fileIdx : ℕ) (priority : ℤ) (d a n f : Bool),
      (s.state.select s.now fileIdx priority d a n f).1.acknowledgedPriorities =
        s.state.acknowledgedPriorities := by
    intro fileIdx priority d a n f
    rcases s.state.select_spec s.now fileIdx priority d a n f with ⟨-, heq⟩ | ⟨-, heq⟩ <;>
      rw [heq] <;> rfl
  cases a with
  | setSeedingEnabled enabled => exact h.keep rfl (.refl _) rfl rfl (fun _ => Or.inl) rfl
  -- the request that queues up is no activation, so it holds no vector
  | loadMetadata =>
    refine h.load rfl (by rintro ⟨⟩) (fun hl => (h.unloaded hl).1) ?_ ?_ ?_
    · intro r hr
      rcases List.mem_append.mp hr with hr | hr
      · exact Or.inl hr
      · rw [List.mem_singleton] at hr
        subst hr
        exact Or.inr (by rintro ⟨⟩)
    · intro hop
      exact h.truthful fun c hc => by rw [show s.operation = none from hop] at hc; cases hc
    · exact fun d hd => ⟨(h.holder hd).1, (h.holder hd).2, (h.holder hd).3, (h.holder hd).4⟩
  -- an activation queues up behind the layout, which the guard asks for
  | startPlayback start complete =>
    dsimp only [RequestStep.effect]
    split
    · exact h
    · next st selection heq =>
      refine ackInvariant_wait h ?_ fun _ => hg.1
      have hst := congrArg Prod.fst (s.state.startPlayback_spec _ heq)
      exact (congrArg _ hst).trans (hselect _ _ _ _ _ _)
  | refreshHls fileIdx complete =>
    dsimp only [RequestStep.effect]
    split
    · exact ackInvariant_wait h (hselect _ _ _ _ _ _) fun _ => hg.1
    · exact h.withState (hselect _ _ _ _ _ _)
  | endHls fileIdx =>
    have hend : (s.state.endHls s.seedingEnabled fileIdx).1.acknowledgedPriorities =
        s.state.acknowledgedPriorities := by
      unfold TorrentPlaybackState.endHls
      split <;> rfl
    dsimp only [RequestStep.effect, World.endHls]
    split
    · exact h.withState hend
    · exact h.keep hend (.refl _) rfl rfl (fun _ => Or.inl) rfl
    · exact h.keep hend (.refl _) rfl rfl (fun _ => Or.inl) rfl
    · exact ackInvariant_wait h hend (by rintro ⟨⟩)
  | finishEndHls rest =>
    refine h.keep ?_ (.refl _) rfl rfl (fun _ => Or.inl) rfl
    cases rest with
    | keepActiveForSeeding generation =>
      rcases s.state.keepActiveForSeeding_spec generation with heq | ⟨-, -, heq⟩ <;>
        simp only [RequestStep.effect, EndHlsRest.effect, heq]
    | restorePausedIdle beganIdle => rfl
  | replaceWindow permit assignments => exact h.keep rfl (.refl _) rfl rfl (fun _ => Or.inl) rfl
  | dropPermit permit => exact h.keep rfl (.refl _) rfl rfl (fun _ => Or.inl) rfl

theorem ackInvariant_acquire {r : LockRequest} (hop : s.operation = none)
    (hq : s.lockQueue = r :: s.lockQueue.tail) :
    ((Action.acquire r).effect s).AckInvariant := by
  -- nobody holds the lock: what is recorded is in force
  have ht : s.Truthful := h.truthful fun c hc => by rw [hop] at hc; cases hc
  refine h.idle ht rfl (.refl _) rfl rfl (fun r' hr' => Or.inl (List.mem_of_mem_tail hr')) ?_
  rintro _ ⟨⟩
  -- before the layout is there no activation waits in the queue
  have hr : s.layoutLoaded = false → r.isActivate = false := fun hl =>
    (h.unloaded hl).2.2 r (hq ▸ List.mem_cons_self)
  cases r with
  | activate act => exact ⟨rfl, by rintro _ _ _ ⟨⟩, fun hl => by cases hr hl⟩
  | _ => exact ⟨rfl, by rintro _ _ _ ⟨⟩, fun _ => rfl⟩

theorem ackInvariant_load {a : LoadStep} (hl : s.TasksLinked) (hg : a.guard s) :
    (a.effect s).AckInvariant := by
  cases a with
  | status =>
    refine h.idle ((h.holder hg).truthful rfl) rfl (.refl _) rfl rfl (fun _ => Or.inl) ?_
    rintro _ ⟨⟩
    exact ⟨rfl, by rintro _ _ _ ⟨⟩, fun _ => rfl⟩
  | statusFail =>
    exact h.load rfl (by rintro ⟨⟩) (fun hl => (h.unloaded hl).1) (fun _ => Or.inl)
      (fun _ => (h.holder hg).truthful rfl) (by rintro _ ⟨⟩)
  | permit hasMetadata isPaused =>
    have ht := (h.holder hg).truthful rfl
    dsimp only [LoadStep.effect]
    split
    · exact h.load rfl (by rintro ⟨⟩) (fun hl => (h.unloaded hl).1) (fun _ => Or.inl)
        (fun _ => ht) (by rintro _ ⟨⟩)
    · refine h.idle ht rfl (.refl _) rfl rfl (fun _ => Or.inl) ?_
      rintro _ ⟨⟩
      exact ⟨rfl, by rintro _ _ _ ⟨⟩, fun _ => rfl⟩
  | announce isPaused =>
    have ht := (h.holder hg).truthful rfl
    exact h.load rfl (by rintro ⟨⟩) (fun hl => (h.unloaded hl).1) (fun _ => Or.inl)
      (fun _ => ht.congr rfl ⟨rfl, id, rfl, rfl⟩) (by rintro _ ⟨⟩)
  -- without files there is nothing to submit
  | query =>
    refine h.loaderStep ?_
    intro hr hfiles
    rw [if_neg hfiles] at hr
    cases hr
  | probe =>
    refine h.loaderStep ?_
    intro hr _
    split at hr
    · next hseed => intro hseed'; rw [hseed] at hseed'; cases hseed'
    · cases hr
  -- nothing is recorded while the metadata is loaded, and no holder has a vector in its hands:
  -- the zeros that are submitted cannot contradict either
  | submit =>
    have hloaded := hl.loading (by rw [show s.loader = _ from hg]; decide)
    obtain ⟨hnone, hheld, -⟩ := h.unloaded hloaded
    have ht : ((LoadStep.submit).effect s).Truthful := by
      intro v hv
      rw [show s.state.acknowledgedPriorities = some v from hv] at hnone
      cases hnone
    refine h.load rfl ?_ (fun _ => hnone) (fun _ => Or.inl) (fun _ => ht) ?_
    · intro _ _ hseed
      refine ⟨rfl, ?_⟩
      simp only [LoadStep.effect, Native.setFilePriorities] at hseed ⊢
      rw [hseed]
      rfl
    · intro d hd
      obtain ⟨hv, -, hu⟩ := Critical.of_hasLayout (hheld d hd) s.native.layout
      exact ht.holderFacts hv (fun v pc act => hu v pc _) (fun _ => hheld d hd)
  | acknowledged =>
    refine h.loaderStep fun _ hfiles => h.recording ?_ hfiles
    rw [hg.1]
    rfl
  -- the zeros are recorded, which the torrent has acknowledged one step before
  | record completeFromStart =>
    have hloaded := hl.loading (by rw [show s.loader = _ from hg]; decide)
    obtain ⟨hnone, hheld, -⟩ := h.unloaded hloaded
    have ht : ((LoadStep.record completeFromStart).effect s).Truthful := by
      intro v hv
      simp only [LoadStep.effect, loadDone] at hv
      split at hv
      · rw [hnone] at hv; cases hv
      · next hfiles =>
        rw [Option.some.injEq] at hv
        exact hv ▸ h.recording (by rw [show s.loader = _ from hg]; rfl) hfiles
    constructor
    · exact fun _ => ht
    · intro c v hc hv
      rw [(Critical.of_hasLayout (hheld c hc) _).1] at hv
      cases hv
    · intro v pc act hop
      exact absurd rfl ((Critical.of_hasLayout (hheld _ hop) s.native.layout).2.2 v pc _)
    · rintro ⟨⟩
    · rintro ⟨⟩
  | fail loader => exact h.loaderStep (l := .idle) (by rintro ⟨⟩)

theorem ackInvariant_activate {act : Activation} {a : ActivateStep} (hg : a.guard s act)
    (hc : s.RecordsUpdates (.activate act a)) : (a.effect s act).AckInvariant := by
  have hf := h.holder hg.1
  have hloaded : s.layoutLoaded = true := by
    by_contra hl
    rw [Bool.not_eq_true] at hl
    cases hf.hasLayout hl
  -- the places an activation goes to before it knows a vector
  have hmove : ∀ {t : World} {pc : ActivatePc} (ht : s.Truthful)
      (hack : t.state.acknowledgedPriorities = s.state.acknowledgedPriorities)
      (hn : s.native.SameFiles t.native) (hlayout : t.layoutLoaded = s.layoutLoaded)
      (hload : t.loader = s.loader) (hq : t.lockQueue = s.lockQueue)
      (hop : t.operation = some (.activate act pc))
      (hv : (Critical.activate act pc).vector s.native.layout = none), t.AckInvariant := by
    intro t pc ht hack hn hlayout hload hq hop hv
    refine h.idle ht hack hn hlayout hload (fun r hr => Or.inl (hq ▸ hr)) ?_
    intro d hd
    rw [hop, Option.some.injEq] at hd
    subst hd
    refine ⟨hn.layout ▸ hv, by rintro _ _ _ ⟨⟩, fun hl => ?_⟩
    rw [hl] at hloaded
    cases hloaded
  -- the places it goes to with its vector in force
  have hforce : ∀ {t : World} {pc : ActivatePc} (ht : s.Truthful)
      (hv : s.InForce (act.desired s.native.layout))
      (hack : t.state.acknowledgedPriorities = s.state.acknowledgedPriorities)
      (hn : s.native.SameFiles t.native) (hlayout : t.layoutLoaded = s.layoutLoaded)
      (hload : t.loader = s.loader) (hq : t.lockQueue = s.lockQueue)
      (hop : t.operation = some (.activate act pc)), t.AckInvariant := by
    intro t pc ht hv hack hn hlayout hload hq hop
    refine h.next hn hlayout hload (fun hl => hack ▸ (h.unloaded hl).1)
      (fun r hr => Or.inl (hq ▸ hr)) (by rw [hop]; rintro ⟨⟩) ?_
    intro d hd
    rw [hop, Option.some.injEq] at hd
    subst hd
    refine ⟨fun _ => ht.congr hack hn, ?_, by rintro _ _ _ ⟨⟩, fun hl => ?_⟩
    · intro v hv'
      have hv'' : v = act.desired s.native.layout := by
        rw [hn.layout] at hv'
        cases pc <;> simp [Critical.vector] at hv' <;> exact hv'.symm
      exact hv'' ▸ hv.congr hn
    · rw [hlayout, hloaded] at hl
      cases hl
  cases a with
  | check =>
    have ht := hf.truthful rfl
    dsimp only [ActivateStep.effect, World.activateDesired]
    split
    · split
      · exact h.activationOk ht act
      · split
        · exact hmove ht rfl (.refl _) rfl rfl rfl rfl rfl
        · refine hmove ht rfl (.refl _) rfl rfl rfl rfl ?_
          split <;> rfl
    · exact h.activationErr ht act
  | clearDeadlines =>
    refine hmove (hf.truthful rfl) rfl ⟨rfl, id, rfl, rfl⟩ rfl rfl rfl rfl ?_
    split <;> rfl
  | fastPath =>
    have ht := hf.truthful rfl
    dsimp only [ActivateStep.effect]
    split
    · exact h.activationOk ht act
    · exact hmove ht rfl (.refl _) rfl rfl rfl rfl rfl
  | compare =>
    have ht := hf.truthful rfl
    dsimp only [ActivateStep.effect]
    split
    · next hsame => exact h.activatePrioritized ht hloaded (ht _ hsame)
    · refine h.next (.refl _) rfl rfl (fun hl => (h.unloaded hl).1) (fun _ => Or.inl)
        (by rintro ⟨⟩) ?_
      rintro _ ⟨⟩
      refine ⟨fun _ => ht, by rintro _ ⟨⟩, by rintro _ _ _ ⟨⟩; rfl, fun hl => ?_⟩
      rw [show s.layoutLoaded = false from hl] at hloaded
      cases hloaded
  | record =>
    have hv := hf.vector _ rfl
    dsimp only [ActivateStep.effect]
    split
    · refine AckInvariant.activatePrioritized ?_ ?_ ?_ ?_
      · refine h.next (.refl _) rfl rfl ?_ (fun _ => Or.inl) ?_ ?_
        · intro hl; rw [hl] at hloaded; cases hloaded
        · intro hnone; cases hg.1.symm.trans hnone
        · intro d hd
          have hd' := hg.1.symm.trans hd
          rw [Option.some.injEq] at hd'
          subst hd'
          exact ⟨by rintro ⟨⟩, hf.vector, by rintro _ _ _ ⟨⟩, hf.hasLayout⟩
      · intro v hv'
        rw [Option.some.injEq] at hv'
        exact hv' ▸ hv
      · exact hloaded
      · exact hv
    · next hne => exact h.activationErr (hc.resolve_left hne).truthful act
  | hotWindow decision order =>
    refine h.replaceWindowLocked (hf.truthful rfl) ?_
    rintro _ ⟨⟩
    exact ⟨hloaded, hf.vector _ rfl⟩
  | verify =>
    have ht := hf.truthful rfl
    dsimp only [ActivateStep.effect]
    split
    · exact hforce ht (hf.vector _ rfl) rfl (.refl _) rfl rfl rfl rfl
    · exact h.activationErr ht act
  | resume present =>
    have ht := hf.truthful rfl
    dsimp only [ActivateStep.effect]
    split
    · split
      · exact hforce ht (hf.vector _ rfl) rfl ⟨rfl, id, rfl, rfl⟩ rfl rfl rfl rfl
      · refine AckInvariant.activationOk ?_ ?_ act
        · exact h.withNative ⟨rfl, id, rfl, rfl⟩
        · exact ht.congr rfl ⟨rfl, id, rfl, rfl⟩
    · exact h.activationErr ht act
  | firstPiece =>
    have ht := hf.truthful rfl
    dsimp only [ActivateStep.effect]
    split
    · refine AckInvariant.activationOk ?_ ?_ act
      · exact h.withState rfl
      · exact ht
    · exact h.activationOk ht act
  | fail pc =>
    have hpc : pc ≠ .record := by
      rintro rfl
      cases hg.2
    refine h.activationErr (hf.truthful ?_) act
    cases pc with
    | record => exact absurd rfl hpc
    | _ => rfl

theorem ackInvariant_pause {p : Pause} {a : PauseStep} (hg : a.guard s p)
    (hc : s.RecordsUpdates (.pause p a)) : (a.effect s p).AckInvariant := by
  cases a with
  -- a pause of an old generation ends here and leaves the record as it is
  | check =>
    have ht := (h.holder hg).truthful rfl
    dsimp only [PauseStep.effect]
    split
    · refine h.idle ht rfl (.refl _) rfl rfl (fun _ => Or.inl) ?_
      rintro _ ⟨⟩
      exact ⟨rfl, by rintro _ _ _ ⟨⟩, fun _ => rfl⟩
    · exact h.pauseOk ht p
  | native =>
    refine h.idle ((h.holder hg).truthful rfl) rfl ⟨rfl, id, rfl, rfl⟩ rfl rfl (fun _ => Or.inl) ?_
    rintro _ ⟨⟩
    exact ⟨rfl, by rintro _ _ _ ⟨⟩, fun _ => rfl⟩
  | confirmed =>
    have ht := (h.holder hg.1).truthful rfl
    dsimp only [PauseStep.effect]
    split
    · refine h.idle ht rfl (.refl _) rfl rfl (fun _ => Or.inl) ?_
      rintro _ ⟨⟩
      refine ⟨rfl, by rintro _ _ _ ⟨⟩, fun hl => ?_⟩
      simp [Critical.hasLayout, World.zeros, hl]
    · exact h.pauseOk ht p
  -- zeros that are recorded already are not submitted again: they are in force
  | compare zeros =>
    have hf := h.holder hg
    have ht := hf.truthful rfl
    dsimp only [PauseStep.effect]
    split
    · next hsame =>
      refine h.next (.refl _) rfl rfl (fun hl => (h.unloaded hl).1) (fun _ => Or.inl)
        (by rintro ⟨⟩) ?_
      rintro _ ⟨⟩
      refine ⟨fun _ => ht, ?_, by rintro _ _ _ ⟨⟩, fun hl => ?_⟩
      · intro v hv
        simp only [Critical.vector, Bool.false_or, decide_eq_true_eq] at hv
        split at hv
        · next hne =>
          rw [Option.some.injEq] at hv
          exact hv ▸ ht _ (hsame.resolve_left hne)
        · cases hv
      · simpa [Critical.hasLayout] using hf.hasLayout hl
    · next hne =>
      refine h.idle ht rfl (.refl _) rfl rfl (fun _ => Or.inl) ?_
      rintro _ ⟨⟩
      refine ⟨rfl, by rintro _ _ _ ⟨⟩, fun hl => ?_⟩
      have hnil := hf.hasLayout hl
      simp only [Critical.hasLayout, decide_eq_false_iff_not, ne_eq, not_not] at hnil
      exact absurd (Or.inl hnil) hne
  -- the zeros in force are recorded only if no selection came between
  | finish zeros applied =>
    have hf := h.holder hg
    have hrecorded : ∀ v, (if zeros = [] then none else some zeros) = some v → s.InForce v := by
      intro v hv
      split at hv
      · cases hv
      · next hne =>
        rw [Option.some.injEq] at hv
        exact hv ▸ hf.vector zeros (by simp [Critical.vector, hne])
    dsimp only [PauseStep.effect, TorrentPlaybackState.finishPause]
    split
    · refine AckInvariant.pauseOk ?_ ?_ p
      · refine h.next (.refl _) rfl rfl ?_ (fun _ => Or.inl) ?_ ?_
        · intro hl
          have hnil := hf.hasLayout hl
          simp only [Critical.hasLayout, Bool.or_eq_false_iff, decide_eq_false_iff_not,
            not_not] at hnil
          exact if_pos hnil.2
        · intro hnone; cases hg.symm.trans hnone
        · intro d hd
          have hd' := hg.symm.trans hd
          rw [Option.some.injEq] at hd'
          subst hd'
          exact ⟨fun _ => hrecorded, hf.vector, by rintro _ _ _ ⟨⟩, hf.hasLayout⟩
      · exact hrecorded
    · next hne =>
      refine h.pauseOk ?_ p
      -- submitted but not recorded: the condition is that nothing is at stake then
      cases applied with
      | true => exact (hc.resolve_left hne).truthful
      | false => exact hf.truthful rfl
  | fail pc =>
    refine h.pauseErr ((h.holder hg.1).truthful ?_) p
    rcases hg.2 with rfl | rfl <;> rfl

theorem ackInvariant_update {v : List ℤ} {caller : Updater} {a : UpdateStep}
    (hl : s.TasksLinked) (hg : a.guard s v caller) (hc : s.RecordsUpdates (.update v caller a)) :
    (a.effect s v caller).AckInvariant := by
  -- an update that fails ends the operation of its caller
  have herr : s.Truthful → (s.updateErr caller).AckInvariant := by
    intro ht
    cases caller with
    | activation act => exact h.activationErr ht act
    | pause p => exact h.pauseErr ht p
  cases a with
  -- a torrent that seeds takes no priorities: nothing is submitted
  | probe =>
    have hf := h.holder hg
    dsimp only [UpdateStep.effect]
    split
    · next hseed =>
      refine h.updateDone hg ?_
      intro hseed'
      rw [hseed] at hseed'
      cases hseed'
    · refine h.next (.refl _) rfl rfl (fun hl => (h.unloaded hl).1) (fun _ => Or.inl)
        (by rintro ⟨⟩) ?_
      rintro _ ⟨⟩
      exact ⟨fun _ => hf.truthful rfl, by rintro _ ⟨⟩,
        by rintro _ _ _ ⟨⟩; exact hf.desired _ _ _ rfl, hf.hasLayout⟩
  | submit =>
    have hf := h.holder hg
    have hloaded : s.layoutLoaded = true := by
      by_contra hl
      rw [Bool.not_eq_true] at hl
      cases hf.hasLayout hl
    -- the torrent takes the vector at once, and the recorded one is no longer in force
    have hv : ((UpdateStep.submit).effect s v caller).InForce v := by
      intro hseed
      simp only [UpdateStep.effect, Native.setFilePriorities] at hseed ⊢
      rw [hseed]
      exact ⟨trivial, rfl⟩
    constructor
    · intro hop
      cases hop _ rfl
    · rintro c v' hop hv'
      obtain rfl := Option.some.inj hop
      cases hv'
      exact hv
    · rintro v' pc act hop
      obtain ⟨rfl, -, rfl⟩ := Critical.update.inj (Option.some.inj hop)
      exact hf.desired _ _ _ rfl
    · intro hl
      rw [show s.layoutLoaded = false from hl] at hloaded
      cases hloaded
    · -- the loading of the metadata is over once the layout is there
      intro hsub
      have hidle : s.loader ≠ .idle := by
        rintro hidle
        rw [show (UpdateStep.submit.effect s v caller).loader = s.loader from rfl, hidle] at hsub
        cases hsub
      rw [hl.loading hidle] at hloaded
      cases hloaded
  | acknowledged =>
    exact h.updateDone hg.1 ((h.holder hg.1).vector v rfl)
  -- a vector given up before its acknowledgement is what the condition rules out
  | fail pc =>
    refine herr ?_
    cases pc with
    | acknowledge => exact NothingAtStake.truthful hc
    | _ => exact (h.holder hg).truthful rfl

theorem ackInvariant_changes {baseline : ℤ} {cs : List PiecePriorityChange} {caller : Changer}
    (hop : s.operation = some (.changes baseline cs caller)) (found : Bool) :
    ((Action.changes baseline cs caller found).effect s).AckInvariant := by
  have hf := h.holder hop
  have ht := hf.truthful rfl
  have hn := s.native.sameFiles_applyChanges baseline cs
  cases found with
  | true =>
    dsimp only [Action.effect]
    rw [if_pos rfl]
    refine AckInvariant.changesDone ?_ ?_ ?_
    · exact h.withNative hn
    · exact ht.congr rfl hn
    · rintro act rfl
      refine ⟨?_, ?_⟩
      · by_contra hl
        rw [Bool.not_eq_true] at hl
        cases hf.hasLayout hl
      · simp only [hn.layout]
        exact (hf.vector _ rfl).congr hn
  | false =>
    cases caller with
    | activation act => exact h.activationErr ht act
    | reader command => exact h.idle ht rfl (.refl _) rfl rfl (fun _ => Or.inl) (by rintro _ ⟨⟩)

/-- A step of the worker at the lock. -/
theorem ackInvariant_resume {pc : ResumePc}
    (hop : s.operation = some (.resumeSeeding pc)) {t : World}
    (hack : t.state.acknowledgedPriorities = s.state.acknowledgedPriorities)
    (hn : s.native.SameFiles t.native) (hlayout : t.layoutLoaded = s.layoutLoaded)
    (hload : t.loader = s.loader) (hq : t.lockQueue = s.lockQueue)
    (hop' : t.operation = none ∨ ∃ pc', t.operation = some (.resumeSeeding pc')) :
    t.AckInvariant := by
  refine h.idle ((h.holder hop).truthful rfl) hack hn hlayout hload
    (fun r hr => Or.inl (hq ▸ hr)) ?_
  intro d hd
  rcases hop' with hnone | ⟨pc', hsome⟩
  · rw [hnone] at hd; cases hd
  · rw [hsome, Option.some.injEq] at hd
    subst hd
    exact ⟨rfl, by rintro _ _ _ ⟨⟩, fun _ => rfl⟩

/-- A step of the worker under the lock of the state only. -/
theorem ackInvariant_work {st : TorrentPlaybackState} {w : Worker} {q : List PlaybackCommand}
    {f : Finset ℕ} (hst : st.acknowledgedPriorities = s.state.acknowledgedPriorities) :
    ({ s with state := st, worker := w, queue := q, completeFromStart := f } :
      World).AckInvariant :=
  h.keep hst (.refl _) rfl rfl (fun _ => Or.inl) rfl

/-- The worker waits for the lock. -/
theorem ackInvariant_awaitLock {r : LockRequest} (hr : r.isActivate = false) :
    (s.awaitLock r).AckInvariant := by
  refine h.keep rfl (.refl _) rfl rfl ?_ rfl
  intro r' hr'
  rcases List.mem_append.mp hr' with hr' | hr'
  · exact Or.inl hr'
  · rw [List.mem_singleton] at hr'
    subst hr'
    exact Or.inr fun hact => by rw [hr] at hact; cases hact

theorem ackInvariant_workerPause (p : Pause) : (s.workerPause p).AckInvariant := by
  unfold World.workerPause
  split
  · exact ackInvariant_work h rfl
  · exact ackInvariant_awaitLock h rfl

theorem ackInvariant_receive (command : PlaybackCommand) : (command.effect s).AckInvariant := by
  have hschedule : ∀ (st : TorrentPlaybackState) (now : ℕ),
      (st.scheduleIdleIfNeeded now).acknowledgedPriorities = st.acknowledgedPriorities := by
    intro st now
    obtain ⟨deadline, heq, -⟩ := st.scheduleIdleIfNeeded_spec now
    rw [heq]
  have hpop : s.handled.AckInvariant := ackInvariant_work h rfl
  cases command with
  | reader command => exact ackInvariant_awaitLock hpop rfl
  | releaseMetadata => exact ackInvariant_work h (hschedule _ _)
  | seedingEnabled enabled =>
    cases enabled with
    | true => exact ackInvariant_awaitLock hpop rfl
    | false => exact ackInvariant_work h (hschedule _ _)
  | pieceVerified piece => exact ackInvariant_work h rfl
  | pieceInvalidated piece => exact ackInvariant_work h rfl

theorem ackInvariant_worker {a : WorkerStep} (hg : a.guard s) : (a.effect s).AckInvariant := by
  cases a with
  | tick =>
    dsimp only [WorkerStep.effect]
    split
    · exact h
    · exact ackInvariant_work h rfl
  | decide now =>
    dsimp only [WorkerStep.effect]
    rcases s.state.pauseIfDue_spec now with heq | heq | ⟨-, -, hls, heq⟩ | ⟨-, heq⟩ <;>
      rw [heq] <;> exact ackInvariant_work h rfl
  | enterPause p => exact ackInvariant_workerPause h p
  -- what the worker does to the phase leaves the recorded vector alone
  | keepActive p =>
    refine ackInvariant_work h ?_
    rcases s.state.keepActiveForSeeding_spec p.generation with heq | ⟨-, -, heq⟩ <;> rw [heq]
  | failedPause p =>
    refine ackInvariant_work h ?_
    unfold TorrentPlaybackState.retryPause
    split
    · split <;> rfl
    · split <;> rfl
  | receive command => exact ackInvariant_receive h command
  | checkComplete fileIdx generation complete =>
    dsimp only [WorkerStep.effect]
    split
    · refine ackInvariant_workerPause ?_ _
      exact h.withState rfl
    · exact ackInvariant_work h rfl
  -- a command of a reader changes the pieces, never the files
  | reader command order =>
    have ht := (h.holder hg).truthful rfl
    cases command with
    | replaceWindow => exact h.replaceWindowLocked ht (by rintro _ ⟨⟩)
    | release fileIdx generation streamId foreground =>
      obtain ⟨deadline, heq, -⟩ :=
        s.state.releasePlayback_spec s.now generation order streamId foreground
      dsimp only [WorkerStep.effect, ReaderCommand.effect]
      rw [heq]
      refine AckInvariant.applyNext ?_ ?_ (by rintro _ ⟨⟩)
      · exact h.withState rfl
      · exact ht
  -- resuming takes the pause off and submits nothing
  | resumeCheck =>
    dsimp only [WorkerStep.effect]
    split
    · exact ackInvariant_resume h hg rfl (.refl _) rfl rfl rfl (Or.inl rfl)
    · exact ackInvariant_resume h hg rfl (.refl _) rfl rfl rfl (Or.inr ⟨_, rfl⟩)
  | resumeNative =>
    exact ackInvariant_resume h hg rfl ⟨rfl, id, rfl, rfl⟩ rfl rfl rfl (Or.inr ⟨_, rfl⟩)
  | resumeFail => exact ackInvariant_resume h hg rfl (.refl _) rfl rfl rfl (Or.inl rfl)
  | resumePhase => exact ackInvariant_resume h hg rfl (.refl _) rfl rfl rfl (Or.inl rfl)

/-- **Every step that meets the condition keeps the invariant.** -/
theorem ackInvariant_step {a : Action} (hl : s.TasksLinked) (hg : a.guard s)
    (hc : s.RecordsUpdates a) : (a.effect s).AckInvariant := by
  cases a with
  | surroundings a => exact ackInvariant_surroundings h a
  | request a => exact ackInvariant_request h hg
  | acquire r => exact ackInvariant_acquire h hg.1 hg.2
  | load a => exact ackInvariant_load h hl hg
  | activate act a => exact ackInvariant_activate h hg hc
  | pause p a => exact ackInvariant_pause h hg hc
  | update v caller a => exact ackInvariant_update h hl hg hc
  | changes baseline cs caller found => exact ackInvariant_changes h hg found
  | worker a => exact ackInvariant_worker h hg

end Steps

theorem Initial.ackInvariant {s : World} (h : s.Initial) : s.AckInvariant where
  truthful _ := by
    intro v hv
    rw [h.state] at hv
    cases hv
  vector c v hop := by rw [h.operation] at hop; cases hop
  desired v pc act hop := by rw [h.operation] at hop; cases hop
  unloaded _ := by
    refine ⟨by rw [h.state]; rfl, fun c hop => ?_, ?_⟩
    · rw [h.operation] at hop; cases hop
    · rw [h.lockQueue]; rintro _ ⟨⟩
  recording hsub := by rw [h.loader] at hsub; cases hsub

theorem ackInvariant_of_reach {s t : World} (hs : s.Initial)
    (h : coordinator.Reach RecordsUpdates s t) : t.AckInvariant :=
  h.invariant_of (fun _ hr => tasksLinked_of_reach hs hr) hs.ackInvariant
    fun _ _ hl hi hg hc => ackInvariant_step hi hl hg hc

end World

/-- The step with which the activation of an incomplete file returns `Ok`. -/
def ActivateStep.ReturnsOk (s : World) (act : Activation) : ActivateStep → Prop
  | .check =>
      s.state.IsCurrent act.start.fileIdx act.generation ∧ act.selection.subordinate = true
  | .resume firstPiecePresent =>
      s.state.IsCurrent act.start.fileIdx act.generation ∧ firstPiecePresent = false
  | .firstPiece => True
  | _ => False

instance (s : World) (act : Activation) : ∀ a : ActivateStep, Decidable (a.ReturnsOk s act)
  | .check | .resume _ => inferInstanceAs (Decidable (_ ∧ _))
  | .firstPiece => inferInstanceAs (Decidable True)
  | .clearDeadlines | .fastPath | .compare | .record | .hotWindow .. | .verify | .fail _ =>
      inferInstanceAs (Decidable False)

namespace World

/-- **The acknowledged priorities are truthful.**  In every run whose steps record
the updates they hand over, whenever the operation lock is free the acknowledged
vector is the last one handed to the torrent and in force there, unless the
torrent is a seed; and when the activation of an incomplete file returns `Ok`, the
torrent has exactly the vector it wants. -/
theorem acknowledged_truthful {s t : World} (hs : s.Initial)
    (h : coordinator.Reach RecordsUpdates s t) :
    (t.operation = none → ∀ v, t.state.acknowledgedPriorities = some v →
      t.native.isSeeding = false →
        t.native.submitted = some v ∧ t.native.filePriorities = v) ∧
      ∀ act a, a.guard t act → t.RecordsUpdates (.activate act a) → act.complete = false →
        a.ReturnsOk t act → (a.effect t act).native.isSeeding = false →
          (a.effect t act).native.filePriorities = act.desired t.native.layout := by
  have hinv := ackInvariant_of_reach hs h
  constructor
  · intro hop v hv hseed
    exact hinv.truthful (fun c hc => by rw [hop] at hc; cases hc) v hv hseed
  · intro act a hg hc hcomplete hok hseed
    have hf := hinv.holder hg.1
    cases a with
    | check =>
      simp only [ActivateStep.effect, if_pos hok.1, if_pos hok.2] at hseed ⊢
      have hack := (hc hcomplete hok.2 hok.1).resolve_right (by
        rw [show t.native.isSeeding = false from hseed]; decide)
      exact (hf.truthful rfl _ hack hseed).2
    | resume present =>
      obtain ⟨hcurrent, rfl⟩ := hok
      simp only [ActivateStep.effect, if_pos hcurrent] at hseed ⊢
      exact (hf.vector _ rfl hseed).2
    | firstPiece =>
      have hforce := hf.vector _ rfl
      dsimp only [ActivateStep.effect] at hseed ⊢
      split at hseed <;> split <;> exact (hforce hseed).2
    | _ => cases hok

/-- A first reader of the first file, up to the point where it resumes the
torrent. -/
def firstReader : List Action := Run.load ++ Run.read (Run.reader 0 1) [1, 0]

/-- One reader is activated undisturbed, and its vector is in force. -/
theorem acknowledged_truthful_once :
    ∃ t, coordinator.Reach RecordsUpdates (registered twoFiles false) t ∧
      t.state.acknowledgedPriorities = some [1, 0] ∧ t.native.submitted = some [1, 0] := by
  obtain ⟨t, ht, hop, hack, hseed⟩ :
      ∃ t, coordinator.Reach RecordsUpdates (registered twoFiles false) t ∧
        (t.operation = none ∧ t.state.acknowledgedPriorities = some [1, 0] ∧
          t.native.isSeeding = false) :=
    GuardedSystem.exists_reach_of_exec (firstReader ++ [Action.activate (Run.reader 0 1) (.resume false)])
      (by decide)
  have hinit : (registered twoFiles false).Initial := registered_initial rfl rfl false
  exact ⟨t, ht, hack, ((acknowledged_truthful hinit ht).1 hop _ hack hseed).1⟩

/-- Switching from the first file to the second and back while the second switch
waits for its update: the third activation finds its vector acknowledged, skips
the update and returns `Ok`, and the torrent is left with the second file's
priorities. -/
theorem quickSwitch_acknowledges_stale :
    ∃ s, s.Initial ∧ ∃ t, coordinator.Reach GuardedSystem.anyStep s t ∧
      ((ActivateStep.resume false).guard t (Run.reader 0 3) ∧ (Run.reader 0 3).complete = false ∧
        (ActivateStep.resume false).ReturnsOk t (Run.reader 0 3) ∧
        let t' := (ActivateStep.resume false).effect t (Run.reader 0 3)
        t'.operation = none ∧ t'.native.isSeeding = false ∧
          (Run.reader 0 3).desired t'.native.layout = [1, 0] ∧
          t'.state.acknowledgedPriorities = some [1, 0] ∧ t'.native.submitted = some [0, 1] ∧
          t'.native.filePriorities = [0, 1]) :=
  ⟨registered twoFiles false, registered_initial rfl rfl false,
    GuardedSystem.exists_reach_of_exec
      (firstReader ++ [Action.activate (Run.reader 0 1) (.resume false),
        .request (.startPlayback (Run.reader 1 2).start false)] ++
        Run.activate (Run.reader 1 2) ++ Run.update [0, 1] (.activation (Run.reader 1 2)) ++
        [Action.request (.startPlayback (Run.reader 0 3).start false),
          .activate (Run.reader 1 2) .record] ++
        Run.activate (Run.reader 0 3) ++ Run.window (Run.reader 0 3))
      (by decide)⟩

end World

end StreamServer.Playback
