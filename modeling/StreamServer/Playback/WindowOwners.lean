import StreamServer.Playback.Permits

/-!
# The owners of priority windows

Every window is filed under the stream of a permit, or of HLS.  The commands of a reader
travel through the queue, and its release comes last, because the permit sends it when it
is dropped.  So a window that has been filed, or that a command in the queue will file,
belongs to a permit that somebody holds or whose release is still to come; and a release
retires the window of its stream unless the windows have been forgotten since.

A command that has been overtaken by another generation does nothing.

## Main definitions

* `ActivePriorityWindows.Has` — a window is filed under the stream.
* `World.readerCommands` — the commands of readers still to be carried out, in order.
* `Backed` — every command that files a window comes from a permit that is held, or is
  followed by its release.
* `World.WindowsOwned` — the invariant.

## Main results

* `staleCommand_inert` — an overtaken command touches neither the windows nor the native
  torrent.
* `windowsOwned_step`, `windowsOwned_of_reach` — every window has an owner.
* `windows_doNotLeak` — **once the commands are carried out, every window belongs to a live
  permit of the current generation or to HLS.**

## References

`enginefs/src/backend/libtorrent/playback.rs`, `LibtorrentPlaybackPermit`,
`replace_priority_window_locked`, `handle_command`.
-/

namespace StreamServer.Playback

/-! ### Filed windows -/

namespace ActivePriorityWindows

variable {w : ActivePriorityWindows} {order : IterationOrder} {streamId id : ℕ}

/-- A window is filed under the stream. -/
def Has (w : ActivePriorityWindows) (streamId : ℕ) : Prop := (w.streams.lookup streamId).isSome

instance : Decidable (w.Has id) := inferInstanceAs (Decidable (_ = true))

theorem has_replace {assignments : List LibtorrentPiecePriority} :
    (w.replace order streamId assignments).1.Has id ↔ id = streamId ∨ w.Has id := by
  have hnodup : ((w.streams.lookup streamId).elim [] AList.keys).Nodup := by
    cases w.streams.lookup streamId with
    | none => exact List.nodup_nil
    | some window => exact window.keys_nodup
  rw [Has, replace, reconcile_streams _ order (List.Nodup.union _ hnodup)]
  by_cases h : id = streamId
  · subst h
    simp
  · simp [h, Has, AList.lookup_insert_ne h]

theorem has_release : (w.release order streamId).1.Has id ↔ id ≠ streamId ∧ w.Has id := by
  unfold release
  split
  · next hnone =>
    constructor
    · intro h
      refine ⟨?_, h⟩
      rintro rfl
      rw [Has, hnone] at h
      cases h
    · exact And.right
  · next previous _ =>
    rw [Has, reconcile_streams _ order previous.keys_nodup]
    by_cases h : id = streamId
    · subst h
      simp
    · simp [h, Has, AList.lookup_erase_ne h]

theorem not_has_clearTracking : ¬ w.clearTracking.Has id := by
  simp [Has, clearTracking]

theorem has_markPieceVerified {piece : ℤ} : (w.markPieceVerified piece).Has id ↔ w.Has id := by
  rw [Has, markPieceVerified, AList.lookup_mapValues, Option.isSome_map, Has]

end ActivePriorityWindows

/-! ### Commands of readers -/

/-- What the windows know of a permit: its generation and its stream. -/
def Permit.owner (p : Permit) : ℕ × ℕ := (p.generation, p.streamId)

/-- The owner of the window that the command files. -/
def ReaderCommand.files : ReaderCommand → Option (ℕ × ℕ)
  | .replaceWindow _ generation streamId _ => some (generation, streamId)
  | .release _ _ _ _ => none

/-- The owner that the command takes leave of. -/
def ReaderCommand.retires : ReaderCommand → Option (ℕ × ℕ)
  | .replaceWindow _ _ _ _ => none
  | .release _ generation streamId _ => some (generation, streamId)

/-- Every command that files a window comes from an owner that is `alive`, or is followed by
the command that retires it. -/
def Backed (alive : ℕ × ℕ → Prop) : List ReaderCommand → Prop
  | [] => True
  | c :: rest =>
      (∀ o ∈ c.files, alive o ∨ ∃ c' ∈ rest, c'.retires = some o) ∧ Backed alive rest

/-- Commands are added, and owners are taken leave of by them only. -/
theorem Backed.append {alive alive' : ℕ × ℕ → Prop} {new : List ReaderCommand}
    (halive : ∀ o, alive o → alive' o ∨ ∃ c ∈ new, c.retires = some o)
    (hnew : Backed alive' new) :
    ∀ {l : List ReaderCommand}, Backed alive l → Backed alive' (l ++ new) := by
  intro l
  induction l with
  | nil => exact fun _ => hnew
  | cons c rest ih =>
    intro h
    refine ⟨fun o ho => ?_, ih h.2⟩
    rcases h.1 o ho with hlive | ⟨c', hc', hret⟩
    · rcases halive o hlive with hlive | ⟨c', hc', hret⟩
      · exact Or.inl hlive
      · exact Or.inr ⟨c', List.mem_append_right _ hc', hret⟩
    · exact Or.inr ⟨c', List.mem_append_left _ hc', hret⟩

theorem Backed.mono {alive alive' : ℕ × ℕ → Prop} (halive : ∀ o, alive o → alive' o) :
    ∀ {l : List ReaderCommand}, Backed alive l → Backed alive' l := by
  intro l
  induction l with
  | nil => exact id
  | cons c rest ih => exact fun h => ⟨fun o ho => (h.1 o ho).imp (halive o) id, ih h.2⟩

/-- Releases file nothing. -/
theorem backed_of_not_files {alive : ℕ × ℕ → Prop} :
    ∀ {l : List ReaderCommand}, (∀ c ∈ l, c.files = none) → Backed alive l := by
  intro l
  induction l with
  | nil => exact fun _ => trivial
  | cons c rest ih =>
    intro h
    refine ⟨fun o ho => ?_, ih fun c' hc' => h c' (List.mem_cons_of_mem _ hc')⟩
    rw [h c List.mem_cons_self] at ho
    cases ho

/-- The command of a reader that the task carries out. -/
def LockRequest.readerCommand : LockRequest → Option ReaderCommand
  | .reader command => some command
  | _ => none

/-- A command that goes on to apply its changes has been carried out. -/
def Critical.readerCommand : Critical → Option ReaderCommand
  | .reader command => some command
  | _ => none

/-- The command of a reader, if it is one. -/
def PlaybackCommand.readerCommand : PlaybackCommand → Option ReaderCommand
  | .reader command => some command
  | _ => none

/-- An activation files its window under the stream of its permit; without a permit it is
one of HLS. -/
def Activation.Formed (act : Activation) : Prop :=
  match act.permit with
  | none => act.start.streamId = hlsPriorityStreamId
  | some p => p.owner = (act.generation, act.start.streamId)

theorem formed_ofStart (start : LibtorrentPlaybackStart) (selection : Selection)
    (complete : Bool) : (Activation.ofStart start selection complete).Formed := by
  rw [Activation.Formed]
  rfl

theorem formed_ofHls (fileIdx : ℕ) (selection : Selection) (complete : Bool) :
    (Activation.ofHls fileIdx selection complete).Formed := by
  rw [Activation.Formed]
  rfl

namespace World

/-- The commands of readers still to be carried out, in the order in which they are. -/
def readerCommands (s : World) : List ReaderCommand :=
  (s.operation.bind Critical.readerCommand).toList ++
    s.lockQueue.filterMap LockRequest.readerCommand ++
      s.queue.filterMap PlaybackCommand.readerCommand

/-- Somebody holds a permit of this owner. -/
def Alive (s : World) (o : ℕ × ℕ) : Prop := ∃ p ∈ s.held, p.owner = o

/-- Every window has an owner, and so has every window that is still to be filed. -/
structure WindowsOwned (s : World) : Prop where
  filed : ∀ id, s.state.priorityWindows.Has id → id = hlsPriorityStreamId ∨
    s.Alive (s.state.generation, id) ∨
      ∃ c ∈ s.readerCommands, c.retires = some (s.state.generation, id)
  backed : Backed s.Alive s.readerCommands
  formed : ∀ act, .activate act ∈ s.inflight → act.Formed

/-! ### Overtaken commands -/

/-- The command has been overtaken by another generation, or wants to file a window for a
file that is not selected. -/
def Overtaken (s : World) : ReaderCommand → Prop
  | .replaceWindow fileIdx generation _ _ =>
      s.state.generation ≠ generation ∨ s.state.selectedFile ≠ some fileIdx
  | .release _ generation _ _ => s.state.generation ≠ generation

instance (s : World) (command : ReaderCommand) : Decidable (s.Overtaken command) := by
  cases command <;> (dsimp only [Overtaken]; infer_instance)

/-- **Overtaken commands are inert.**  When the worker carries out a command that has been
overtaken, the windows and the native torrent stay as they are, and it is done. -/
theorem staleCommand_inert {s : World} {command : ReaderCommand} (order : IterationOrder)
    (hstale : s.Overtaken command) :
    (command.effect s order).state.priorityWindows = s.state.priorityWindows ∧
      (command.effect s order).native = s.native ∧ (command.effect s order).operation = none := by
  cases command with
  | replaceWindow fileIdx generation streamId assignments =>
    have hnot : ¬ s.state.IsCurrent fileIdx generation := by
      rintro ⟨hgen, hsel⟩
      exact hstale.elim (fun h => h hgen) fun h => h hsel
    simp only [ReaderCommand.effect, World.replaceWindowLocked, if_neg hnot]
    exact ⟨rfl, rfl, rfl⟩
  | release fileIdx generation streamId foreground =>
    obtain ⟨deadline, heq, -⟩ :=
      s.state.releasePlayback_spec s.now generation order streamId foreground
    rw [if_neg hstale, if_neg hstale] at heq
    simp only [ReaderCommand.effect, heq, World.applyNext, if_true]
    exact ⟨rfl, rfl, rfl⟩

/-! ### Where commands and permits are -/

section Steps

variable {s t : World}

/-- A task that is not a reader's carries out no command of a reader. -/
theorem readerCommand_of_request {c : Critical} (hc : ∀ command, c.request ≠ .reader command) :
    c.readerCommand = none := by
  cases c with
  | reader command => exact absurd rfl (hc command)
  | _ => rfl

/-- A permit dropped with its task sends its release. -/
theorem readerCommands_released (permits : List Permit) :
    (permits.map Permit.releaseCommand).filterMap PlaybackCommand.readerCommand =
      permits.map Permit.release := by
  induction permits with
  | nil => rfl
  | cons p rest ih =>
    rw [List.map_cons, List.map_cons, ← ih]
    rfl

/-- A release files nothing, so it needs no owner. -/
theorem backed_releases {alive : ℕ × ℕ → Prop} (permits : List Permit) :
    Backed alive (permits.map Permit.release) := by
  refine backed_of_not_files fun c hc => ?_
  obtain ⟨p, -, rfl⟩ := List.mem_map.mp hc
  rfl

theorem Alive.of_permits {p : Permit} (hp : p ∈ s.permits) : s.Alive p.owner :=
  ⟨p, List.mem_append_left _ hp, rfl⟩

theorem Alive.of_inflight {r : LockRequest} (hr : r ∈ s.inflight) {p : Permit}
    (hp : p ∈ r.permit) : s.Alive p.owner :=
  ⟨p, List.mem_append_right _ (List.mem_flatMap.mpr ⟨r, hr, Option.mem_toList.mpr hp⟩), rfl⟩

/-- A permit is held by a reader or travels with a task. -/
theorem alive_iff {o : ℕ × ℕ} :
    s.Alive o ↔ (∃ p ∈ s.permits, p.owner = o) ∨ ∃ r ∈ s.inflight, ∃ p ∈ r.permit, p.owner = o := by
  constructor
  · rintro ⟨p, hp, rfl⟩
    rcases List.mem_append.mp hp with hp | hp
    · exact Or.inl ⟨p, hp, rfl⟩
    · obtain ⟨r, hr, hp⟩ := List.mem_flatMap.mp hp
      exact Or.inr ⟨r, hr, p, Option.mem_toList.mp hp, rfl⟩
  · rintro (⟨p, hp, rfl⟩ | ⟨r, hr, p, hp, rfl⟩)
    · exact Alive.of_permits hp
    · exact Alive.of_inflight hr hp

/-! ### What keeps the windows owned -/

/-- A step that adds commands at the end and carries out none: an owner is lost only to a
release, and a window comes only from an owner. -/
theorem WindowsOwned.extend (h : s.WindowsOwned) (new : List ReaderCommand)
    (hcommands : t.readerCommands = s.readerCommands ++ new)
    (halive : ∀ o, s.Alive o → t.Alive o ∨ ∃ c ∈ new, c.retires = some o)
    (hnew : Backed t.Alive new)
    (hfiled : ∀ id, t.state.priorityWindows.Has id →
      t.state.generation = s.state.generation ∧ s.state.priorityWindows.Has id ∨
        id = hlsPriorityStreamId ∨ t.Alive (t.state.generation, id))
    (hformed : ∀ act, .activate act ∈ t.inflight → .activate act ∈ s.inflight ∨ act.Formed) :
    t.WindowsOwned := by
  constructor
  · intro id hid
    rcases hfiled id hid with ⟨hgen, hold⟩ | hls | hlive
    · rw [hgen, hcommands]
      rcases h.filed id hold with hls | hlive | ⟨c, hc, hret⟩
      · exact Or.inl hls
      · rcases halive _ hlive with hlive | ⟨c, hc, hret⟩
        · exact Or.inr (Or.inl hlive)
        · exact Or.inr (Or.inr ⟨c, List.mem_append_right _ hc, hret⟩)
      · exact Or.inr (Or.inr ⟨c, List.mem_append_left _ hc, hret⟩)
    · exact Or.inl hls
    · exact Or.inr (Or.inl hlive)
  · rw [hcommands]
    exact Backed.append halive hnew h.backed
  · intro act hact
    exact (hformed act hact).elim (h.formed act) id

/-- The windows and the generation are as before, or the windows have been forgotten. -/
def KeepsWindows (st st' : TorrentPlaybackState) : Prop :=
  st'.generation = st.generation ∧
      (∀ id, st'.priorityWindows.Has id → st.priorityWindows.Has id) ∨
    ∀ id, ¬ st'.priorityWindows.Has id

theorem KeepsWindows.refl (st : TorrentPlaybackState) : KeepsWindows st st :=
  Or.inl ⟨rfl, fun _ => id⟩

/-- A step that adds no command of a reader, and keeps every permit. -/
theorem WindowsOwned.keep (h : s.WindowsOwned) (hstate : KeepsWindows s.state t.state)
    (hcommands : t.readerCommands = s.readerCommands) (hpermits : t.permits = s.permits)
    (hinflight : ∀ r ∈ s.inflight, r ∈ t.inflight)
    (hformed : ∀ act, .activate act ∈ t.inflight → .activate act ∈ s.inflight ∨ act.Formed) :
    t.WindowsOwned := by
  refine h.extend [] ?_ ?_ trivial ?_ hformed
  · rw [hcommands, List.append_nil]
  · intro o ho
    left
    rw [alive_iff] at ho ⊢
    rw [hpermits]
    exact ho.imp id fun ⟨r, hr, hp⟩ => ⟨r, hinflight r hr, hp⟩
  · intro id hid
    rcases hstate with ⟨hgen, hhas⟩ | hnone
    · exact Or.inl ⟨hgen, hhas id hid⟩
    · exact absurd hid (hnone id)

/-- A step that changes neither the commands of readers nor what the tasks hold. -/
theorem WindowsOwned.stays (h : s.WindowsOwned) (hstate : KeepsWindows s.state t.state)
    (hsame : (t.readerCommands, t.permits, t.inflight) =
      (s.readerCommands, s.permits, s.inflight)) : t.WindowsOwned := by
  simp only [Prod.mk.injEq] at hsame
  obtain ⟨hcommands, hpermits, hin⟩ := hsame
  exact h.keep hstate hcommands hpermits (fun _ hr => hin ▸ hr) fun _ hact => Or.inl (hin ▸ hact)

/-- However the holder of the lock goes on, its permit is kept or its release sent. -/
theorem WindowsOwned.goes (h : s.WindowsOwned) {c : Critical} (hop : s.operation = some c)
    (hreader : ∀ command, c.request ≠ .reader command) (hgo : s.Goes c t) : t.WindowsOwned := by
  have hc := readerCommand_of_request hreader
  have hsame : ∀ {o : ℕ × ℕ}, s.Alive o →
      (∃ p ∈ s.permits, p.owner = o) ∨ (∃ p ∈ c.request.permit, p.owner = o) ∨
        ∃ r ∈ s.lockQueue, ∃ p ∈ r.permit, p.owner = o := by
    intro o ho
    rcases alive_iff.mp ho with hp | ⟨r, hr, hp⟩
    · exact Or.inl hp
    · rw [inflight_of_held hop] at hr
      rcases List.mem_cons.mp hr with rfl | hr
      · exact Or.inr (Or.inl hp)
      · exact Or.inr (Or.inr ⟨r, hr, hp⟩)
  have hqueue : ∀ {r : LockRequest}, r ∈ s.lockQueue → r ∈ s.inflight := by
    intro r hr
    rw [inflight_of_held hop]
    exact List.mem_cons_of_mem _ hr
  cases hgo with
  | moves d hd =>
    have hd' := readerCommand_of_request (c := d) (by rwa [hd])
    have hin : World.inflight { s with operation := some d } = s.inflight :=
      inflight_move hop rfl hd rfl
    refine h.keep (.refl _) ?_ rfl ?_ ?_
    · simp [readerCommands, hop, hc, hd']
    · exact fun r hr => hin ▸ hr
    · exact fun act hact => Or.inl (hin ▸ hact)
  | granted =>
    refine h.extend [] ?_ ?_ trivial (fun id hid => Or.inl ⟨rfl, hid⟩) ?_
    · simp [readerCommands, hop, hc]
    · intro o ho
      left
      rw [alive_iff]
      rcases hsame ho with ⟨p, hp, rfl⟩ | ⟨p, hp, rfl⟩ | hp
      · exact Or.inl ⟨p, List.mem_append_left _ hp, rfl⟩
      · exact Or.inl ⟨p, List.mem_append_right _ (Option.mem_toList.mpr hp), rfl⟩
      · exact Or.inr hp
    · exact fun act hact => Or.inl (hqueue hact)
  | dropped =>
    refine h.extend (c.request.permit.toList.map Permit.release) ?_ ?_
      (backed_releases _) (fun id hid => Or.inl ⟨rfl, hid⟩) ?_
    · simp only [readerCommands, List.filterMap_append, readerCommands_released]
      simp [hop, hc]
    · intro o ho
      rcases hsame ho with hp | ⟨p, hp, rfl⟩ | hp
      · exact Or.inl (alive_iff.mpr (Or.inl hp))
      · exact Or.inr ⟨p.release, List.mem_map_of_mem (Option.mem_toList.mpr hp), rfl⟩
      · exact Or.inl (alive_iff.mpr (Or.inr hp))
    · exact fun act hact => Or.inl (hqueue hact)
  | handedOver act hact =>
    set pause := newPause s.now s.state act.generation (.activation act) with hpause
    have hin : World.inflight { s with operation := none, lockQueue := s.lockQueue ++ [.pause pause] } =
        s.lockQueue ++ [.pause pause] := inflight_of_free rfl
    refine h.extend [] ?_ ?_ trivial (fun id hid => Or.inl ⟨rfl, hid⟩) ?_
    · simp [readerCommands, hop, hc, LockRequest.readerCommand]
    · intro o ho
      left
      rw [alive_iff, hin]
      rcases hsame ho with hp | hp | ⟨r, hr, hp⟩
      · exact Or.inl hp
      -- the pause carries the permit of the activation
      · exact Or.inr ⟨_, List.mem_append_right _ List.mem_cons_self, by rwa [hact] at hp⟩
      · exact Or.inr ⟨r, List.mem_append_left _ hr, hp⟩
    · intro act' hact'
      rw [hin] at hact'
      rcases List.mem_append.mp hact' with hact' | hact'
      · exact Or.inl (hqueue hact')
      · cases List.mem_singleton.mp hact'

/-! ### Every step keeps the windows owned -/

/-- A selection keeps the windows, or forgets them with the generation. -/
theorem keepsWindows_select (st : TorrentPlaybackState) (now fileIdx : ℕ) (nativePriority : ℤ)
    (directPermit hlsActivity networkRequired foreground : Bool) :
    KeepsWindows st
      (st.select now fileIdx nativePriority directPermit hlsActivity networkRequired
        foreground).1 := by
  rcases st.select_spec now fileIdx nativePriority directPermit hlsActivity networkRequired
    foreground with ⟨-, heq⟩ | ⟨-, heq⟩
  · rw [heq]
    exact KeepsWindows.refl st
  · rw [heq]
    exact Or.inr fun _ =>
      ActivePriorityWindows.not_has_clearTracking (w := st.priorityWindows)

theorem keepsWindows_beginPause (st : TorrentPlaybackState) : KeepsWindows st st.beginPause :=
  Or.inr fun _ => ActivePriorityWindows.not_has_clearTracking (w := st.priorityWindows)

theorem keepsWindows_keepActiveForSeeding (st : TorrentPlaybackState) (generation : ℕ) :
    KeepsWindows st (st.keepActiveForSeeding generation) := by
  rcases st.keepActiveForSeeding_spec generation with heq | ⟨-, -, heq⟩
  · rw [heq]
    exact KeepsWindows.refl st
  · rw [heq]
    exact KeepsWindows.refl st

variable (h : s.WindowsOwned)

include h

/-- A task that is no reader's starts to wait. -/
theorem WindowsOwned.wait (r : LockRequest) (hr : r.readerCommand = none)
    (hformed : ∀ act, r = .activate act → act.Formed) :
    ({ s with lockQueue := s.lockQueue ++ [r] } : World).WindowsOwned := by
  have hin : inflight { s with lockQueue := s.lockQueue ++ [r] } = s.inflight ++ [r] :=
    inflight_wait rfl rfl
  refine h.keep (.refl _) ?_ rfl ?_ ?_
  · simp [readerCommands, hr]
  · intro r' hr'
    rw [hin]
    exact List.mem_append_left _ hr'
  · intro act hact
    rw [hin] at hact
    rcases List.mem_append.mp hact with hact | hact
    · exact Or.inl hact
    · exact Or.inr (hformed act (List.mem_singleton.mp hact).symm)

/-- A command that is no reader's is sent. -/
theorem WindowsOwned.enqueue (command : PlaybackCommand) (hcommand : command.readerCommand = none) :
    ({ s with queue := s.queue ++ [command] } : World).WindowsOwned := by
  refine h.keep (.refl _) ?_ rfl (fun _ => id) fun _ => Or.inl
  simp [readerCommands, hcommand]

theorem windowsOwned_request {a : RequestStep} (hg : a.guard s) : (a.effect s).WindowsOwned := by
  cases a with
  | setSeedingEnabled enabled =>
    have hs := h.enqueue (.seedingEnabled enabled) rfl
    exact hs.stays (.refl _) rfl
  | loadMetadata =>
    have hs := h.wait .metadata rfl (by rintro _ ⟨⟩)
    exact hs.stays (.refl _) rfl
  | startPlayback start complete =>
    dsimp only [RequestStep.effect]
    split
    · exact h
    · next st selection hgranted =>
      have hst := s.state.startPlayback_spec s.now hgranted
      have hs : ({ s with state := st } : World).WindowsOwned := by
        refine h.stays ?_ rfl
        rw [show st = _ from congrArg Prod.fst hst]
        exact keepsWindows_select ..
      refine hs.wait (.activate (.ofStart start selection complete)) rfl ?_
      rintro _ ⟨⟩
      exact formed_ofStart ..
  | refreshHls fileIdx complete =>
    dsimp only [RequestStep.effect]
    have hs : ({ s with
        state := (s.state.refreshHls s.now s.seedingEnabled fileIdx complete).1 } :
          World).WindowsOwned := h.stays (keepsWindows_select ..) rfl
    split
    · refine hs.wait (.activate (.ofHls fileIdx _ complete)) rfl ?_
      rintro _ ⟨⟩
      exact formed_ofHls ..
    · exact hs
  | endHls fileIdx =>
    dsimp only [RequestStep.effect, World.endHls, TorrentPlaybackState.endHls]
    by_cases hignored : s.state.selectedFile ≠ some fileIdx ∧ s.state.hlsLastActivity = none
    · rw [if_pos hignored]
      exact h
    · rw [if_neg hignored]
      have hs : ({ s with state := s.state.beginPause } : World).WindowsOwned :=
        h.stays (keepsWindows_beginPause _) rfl
      split
      · exact hs
      · exact hs.stays (.refl _) rfl
      · exact hs.stays (.refl _) rfl
      · exact hs.wait _ rfl (by rintro _ ⟨⟩)
  | finishEndHls rest =>
    refine h.stays ?_ rfl
    cases rest with
    | keepActiveForSeeding generation => exact keepsWindows_keepActiveForSeeding ..
    | restorePausedIdle beganIdle => exact KeepsWindows.refl _
  | replaceWindow permit assignments =>
    -- the window will be filed under the stream of a permit that is held
    refine h.extend
      [.replaceWindow permit.fileIdx permit.generation permit.streamId assignments] ?_
      (fun o ho => Or.inl ho) ⟨?_, trivial⟩ (fun id hid => Or.inl ⟨rfl, hid⟩) fun act => Or.inl
    · simp [readerCommands, RequestStep.effect, PlaybackCommand.readerCommand]
    · rintro o ⟨⟩
      exact Or.inl (Alive.of_permits (p := permit) hg.1)
  | dropPermit permit =>
    refine h.extend [permit.release] ?_ ?_ (backed_releases [permit])
      (fun id hid => Or.inl ⟨rfl, hid⟩) fun act => Or.inl
    · simp [readerCommands, RequestStep.effect, Permit.releaseCommand,
        PlaybackCommand.readerCommand]
    · intro o ho
      rcases alive_iff.mp ho with ⟨p, hp, rfl⟩ | hin
      · by_cases hpp : p = permit
        · rw [hpp]
          exact Or.inr ⟨permit.release, List.mem_singleton_self _, rfl⟩
        · exact Or.inl (Alive.of_permits ((List.mem_erase_of_ne hpp).mpr hp))
      · exact Or.inl (alive_iff.mpr (Or.inr hin))

/-- An activation files its window under the stream of the permit it carries. -/
theorem windowsOwned_activate {act : Activation} {a : ActivateStep} (hg : a.guard s act) :
    (a.effect s act).WindowsOwned := by
  obtain ⟨hop, st, n, hgo, hst, -, -, -, hwindows⟩ := goes_activate hg
  have hgen : st.generation = s.state.generation := congrArg Attendance.generation hst
  have hact : .activate act ∈ s.inflight := by
    rw [inflight_of_held hop]
    exact List.mem_cons_self
  have howner : s.state.generation = act.generation → act.start.streamId = hlsPriorityStreamId ∨
      s.Alive (s.state.generation, act.start.streamId) := by
    intro hcur
    have hformed := h.formed act hact
    unfold Activation.Formed at hformed
    split at hformed
    · exact Or.inl hformed
    · next p hp =>
      right
      rw [hcur, ← hformed]
      exact Alive.of_inflight hact hp
  have hs : (s.update st n).WindowsOwned := by
    refine h.extend [] (List.append_nil _).symm (fun o ho => Or.inl ho) trivial ?_
      fun act => Or.inl
    intro id hid
    rcases hwindows with hsame | ⟨hcur, order, assignments, hreplaced⟩
    · exact Or.inl ⟨hgen, hsame ▸ hid⟩
    · rw [show World.state (s.update st n) = st from rfl, hreplaced,
        ActivePriorityWindows.has_replace] at hid
      rcases hid with rfl | hid
      · rw [show (World.state (s.update st n)).generation = s.state.generation from hgen]
        exact Or.inr (howner hcur.1)
      · exact Or.inl ⟨hgen, hid⟩
  exact hs.goes hop (by rintro _ ⟨⟩) hgo

theorem windowsOwned_pause {p : Pause} {a : PauseStep} (hg : a.guard s p) :
    (a.effect s p).WindowsOwned := by
  obtain ⟨c, hop, hreq, st, n, hgo, hst, -⟩ := goes_pause hg
  have hs : (s.update st n).WindowsOwned := by
    refine h.stays ?_ rfl
    rcases hst with rfl | ⟨zeros, -, rfl⟩
    · exact KeepsWindows.refl _
    · unfold TorrentPlaybackState.finishPause
      split <;> exact KeepsWindows.refl _
  exact hs.goes hop (by rw [hreq]; rintro _ ⟨⟩) hgo

/-- The command at the head has been carried out, and the rest of it is to apply the
changes. -/
theorem WindowsOwned.applyNext {command : ReaderCommand} (hop : s.operation = some (.reader command))
    {st : TorrentPlaybackState} (hgen : st.generation = s.state.generation)
    (hfiled : ∀ id, st.priorityWindows.Has id →
      s.state.priorityWindows.Has id ∧ command.retires ≠ some (s.state.generation, id) ∨
        command.files = some (s.state.generation, id))
    (baseline : ℤ) (cs : List PiecePriorityChange) :
    (World.applyNext { s with state := st } baseline cs (.reader command)).WindowsOwned := by
  set t := World.applyNext { s with state := st } baseline cs (.reader command) with ht
  -- of all the commands only the one at the head is done
  have hcommands : s.readerCommands = command :: t.readerCommands := by
    rw [ht]
    unfold World.applyNext World.changesDone World.workerDone
    split <;> simp [readerCommands, hop, Critical.readerCommand]
  have hstate : t.state = st := by
    rw [ht]
    unfold World.applyNext World.changesDone World.workerDone
    split <;> rfl
  -- carrying out a command takes no permit from anybody
  have hheld : ∀ o, s.Alive o → t.Alive o := by
    intro o ho
    rw [alive_iff] at ho ⊢
    rcases ho with hp | ⟨r, hr, hp⟩
    · left
      rw [ht]
      unfold World.applyNext World.changesDone World.workerDone
      split <;> exact hp
    · right
      rw [inflight_of_held hop] at hr
      rcases List.mem_cons.mp hr with rfl | hr
      · obtain ⟨p, ⟨⟩, -⟩ := hp
      · refine ⟨r, List.mem_append_right _ ?_, hp⟩
        rw [ht]
        unfold World.applyNext World.changesDone World.workerDone
        split <;> exact hr
  have hbacked := h.backed
  rw [hcommands] at hbacked
  constructor
  · intro id hid
    rw [hstate] at hid
    rw [hstate, hgen]
    rcases hfiled id hid with ⟨hold, hkept⟩ | hfiles
    · rcases h.filed id hold with hls | hlive | ⟨c, hc, hret⟩
      · exact Or.inl hls
      · exact Or.inr (Or.inl (hheld _ hlive))
      · rw [hcommands] at hc
        rcases List.mem_cons.mp hc with rfl | hc
        · exact absurd hret hkept
        · exact Or.inr (Or.inr ⟨c, hc, hret⟩)
    · exact Or.inr ((hbacked.1 _ hfiles).imp_left (hheld _))
  · exact hbacked.2.mono hheld
  · intro act hact
    refine h.formed act ?_
    rw [inflight_of_held hop]
    revert hact
    rw [ht]
    unfold World.applyNext World.changesDone World.workerDone
    split <;> simp [inflight, Critical.request, Changer.request]

/-- The worker carries out a reader's command: a window is filed for an owner, a release
retires its own. -/
theorem windowsOwned_reader {command : ReaderCommand} {order : IterationOrder}
    (hop : s.operation = some (.reader command)) : (command.effect s order).WindowsOwned := by
  cases command with
  | replaceWindow fileIdx generation streamId assignments =>
    dsimp only [ReaderCommand.effect, World.replaceWindowLocked]
    split
    · next hcurrent =>
      refine h.applyNext hop (by rfl) (fun id hid => ?_) _ _
      rcases ActivePriorityWindows.has_replace.mp hid with rfl | hid
      · exact Or.inr (by rw [← hcurrent.1]; rfl)
      · exact Or.inl ⟨hid, by rintro ⟨⟩⟩
    · exact h.applyNext hop (by rfl) (fun id hid => Or.inl ⟨hid, by rintro ⟨⟩⟩) 0 []
  | release fileIdx generation streamId foreground =>
    obtain ⟨deadline, heq, -⟩ :=
      s.state.releasePlayback_spec s.now generation order streamId foreground
    dsimp only [ReaderCommand.effect]
    rw [heq]
    refine h.applyNext hop (by rfl) (fun id hid => Or.inl ?_) _ _
    dsimp only at hid
    split at hid
    · next hcurrent =>
      obtain ⟨hne, hold⟩ := ActivePriorityWindows.has_release.mp hid
      refine ⟨hold, fun hret => hne ?_⟩
      exact (congrArg Prod.snd (Option.some.inj hret)).symm
    · next hstale =>
      exact ⟨hid, fun hret => hstale (congrArg Prod.fst (Option.some.inj hret)).symm⟩

/-- The worker, which has no task at the lock, goes on to wait for it. -/
theorem WindowsOwned.awaitLock (r : LockRequest) (hr : r.readerCommand = none)
    (hact : ∀ act, r ≠ .activate act) : (s.awaitLock r).WindowsOwned := by
  have hs := h.wait r hr fun act hract => absurd hract (hact act)
  exact hs.stays (.refl _) rfl

theorem WindowsOwned.workerPause (p : Pause) : (s.workerPause p).WindowsOwned := by
  unfold World.workerPause
  split
  · exact h.stays (.refl _) rfl
  · exact h.awaitLock (.pause p) rfl (by rintro _ ⟨⟩)

/-- The worker takes a command from the queue.  No other task of its is at the lock, so a
reader's command stays the next one. -/
theorem windowsOwned_receive (hl : s.TasksLinked) {command : PlaybackCommand}
    (hg : (WorkerStep.receive command).guard s) : (command.effect s).WindowsOwned := by
  obtain ⟨hidle, hq⟩ := hg
  have hnone : ∀ r ∈ s.inflight, r.readerCommand = none := by
    have hworker := hl.worker
    rw [hidle, show Worker.idle.awaited = none from rfl, Option.toList_none,
      List.filter_eq_nil_iff] at hworker
    intro r hr
    cases r with
    | reader command => exact absurd rfl (hworker _ hr)
    | _ => rfl
  have hop : s.operation.bind Critical.readerCommand = none := by
    cases hc : s.operation with
    | none => rfl
    | some c =>
      refine readerCommand_of_request (c := c) fun command hreq => ?_
      have hmem : c.request ∈ s.inflight := by
        rw [inflight_of_held hc]
        exact List.mem_cons_self
      have hno := hnone _ hmem
      rw [hreq] at hno
      cases hno
  have hlock : s.lockQueue.filterMap LockRequest.readerCommand = [] :=
    List.filterMap_eq_nil_iff.mpr fun r hr => hnone r (List.mem_append_right _ hr)
  -- so the commands are those of the queue, in its order
  have hcommands : s.readerCommands =
      command.readerCommand.toList ++
        s.queue.tail.filterMap PlaybackCommand.readerCommand := by
    rw [readerCommands, hop, hlock, hq]
    cases hc : command.readerCommand <;> simp [hc]
  have hpop : command.readerCommand = none → s.handled.WindowsOwned := by
    intro hno
    refine h.keep (.refl _) ?_ rfl (fun _ => id) fun _ => Or.inl
    rw [hcommands, hno]
    simp [readerCommands, World.handled, hop, hlock]
  cases command with
  | reader command =>
    have hin : inflight ((PlaybackCommand.reader command).effect s) =
        s.inflight ++ [.reader command] := inflight_wait rfl rfl
    refine h.keep (.refl _) ?_ rfl ?_ ?_
    · rw [hcommands]
      simp [readerCommands, PlaybackCommand.effect, World.awaitLock, World.handled, hop, hlock,
        LockRequest.readerCommand, PlaybackCommand.readerCommand]
    · intro r hr
      rw [hin]
      exact List.mem_append_left _ hr
    · intro act hact
      rw [hin] at hact
      rcases List.mem_append.mp hact with hact | hact
      · exact Or.inl hact
      · cases List.mem_singleton.mp hact
  | releaseMetadata =>
    obtain ⟨deadline, heq, -⟩ := TorrentPlaybackState.scheduleIdleIfNeeded_spec
      { s.state with metadataPermits := s.state.metadataPermits - 1 } s.now
    have hs := hpop rfl
    refine hs.stays ?_ rfl
    simp only [PlaybackCommand.effect, TorrentPlaybackState.releaseMetadata, heq]
    exact KeepsWindows.refl _
  | seedingEnabled enabled =>
    have hs := hpop rfl
    cases enabled with
    | true => exact hs.awaitLock .resumeSeeding rfl (by rintro _ ⟨⟩)
    | false =>
      obtain ⟨deadline, heq, -⟩ := s.state.scheduleIdleIfNeeded_spec s.now
      refine hs.stays ?_ rfl
      simp only [PlaybackCommand.effect, heq]
      exact KeepsWindows.refl _
  | pieceVerified piece =>
    have hs := hpop rfl
    refine hs.stays (Or.inl ⟨rfl, fun id hid => ?_⟩) rfl
    exact ActivePriorityWindows.has_markPieceVerified.mp hid
  | pieceInvalidated piece =>
    have hs := hpop rfl
    exact hs.stays (.refl _) rfl

theorem windowsOwned_worker (hl : s.TasksLinked) {a : WorkerStep} (hg : a.guard s) :
    (a.effect s).WindowsOwned := by
  cases a with
  | tick =>
    dsimp only [WorkerStep.effect]
    split
    · exact h
    · exact h.stays (.refl _) rfl
  -- a pause that begins clears the windows and files none
  | decide now =>
    dsimp only [WorkerStep.effect]
    rcases s.state.pauseIfDue_spec now with heq | heq | ⟨-, -, hls, heq⟩ | ⟨-, heq⟩
    · rw [heq]
      exact h.stays (.refl _) rfl
    · rw [heq]
      exact h.stays (.refl _) rfl
    · rw [heq]
      exact h.stays (.refl _) rfl
    · rw [heq]
      exact h.stays (keepsWindows_beginPause _) rfl
  | enterPause p => exact h.workerPause p
  | keepActive p => exact h.stays (keepsWindows_keepActiveForSeeding ..) rfl
  | failedPause p =>
    dsimp only [WorkerStep.effect, TorrentPlaybackState.retryPause]
    refine h.stays ?_ rfl
    split
    · split <;> exact KeepsWindows.refl _
    · split <;> exact KeepsWindows.refl _
  | receive command => exact windowsOwned_receive h hl hg
  | checkComplete fileIdx generation complete =>
    dsimp only [WorkerStep.effect]
    split
    · have hs : ({ s with state := { s.state with phase := .pausePending } } :
          World).WindowsOwned := h.stays (.refl _) rfl
      exact hs.workerPause _
    · exact h.stays (.refl _) rfl
  | reader command order => exact windowsOwned_reader h hg
  | resumeCheck =>
    dsimp only [WorkerStep.effect]
    have hs : ({ s with state := { s.state with idleDeadline := none } } : World).WindowsOwned :=
      h.stays (.refl _) rfl
    split
    · exact hs.goes hg (by rintro _ ⟨⟩) (goes_workerDone rfl rfl)
    · exact hs.goes hg (by rintro _ ⟨⟩) (.moves _ rfl)
  | resumeNative =>
    have hs : ({ s with native := { s.native with isPaused := false } } : World).WindowsOwned :=
      h.stays (.refl _) rfl
    exact hs.goes hg (by rintro _ ⟨⟩) (.moves _ rfl)
  | resumeFail => exact h.goes hg (by rintro _ ⟨⟩) (goes_workerDone rfl rfl)
  | resumePhase =>
    have hs : ({ s with state := { s.state with phase := .active } } : World).WindowsOwned :=
      h.stays (.refl _) rfl
    exact hs.goes hg (by rintro _ ⟨⟩) (goes_workerDone rfl rfl)

/-- The loading of the metadata has nothing to do with readers. -/
theorem windowsOwned_load {a : LoadStep} (hg : a.guard s) : (a.effect s).WindowsOwned := by
  -- the steps that hold the lock
  have hmoves : ∀ {c d : Critical}, s.operation = some c → c.request = .metadata →
      d.request = .metadata → ({ s with operation := some d } : World).WindowsOwned :=
    fun hop hc hd => h.goes hop (by rw [hc]; rintro _ ⟨⟩) (.moves _ (hd.trans hc.symm))
  have hleaves : ∀ {c : Critical}, s.operation = some c → c.request = .metadata →
      ({ s with operation := none } : World).WindowsOwned := by
    intro c hop hc
    have hs := h.goes hop (by rw [hc]; rintro _ ⟨⟩) (.returned (by rw [hc]; rfl))
    exact hs.stays (.refl _) rfl
  have hdone : s.loadDone.WindowsOwned := by
    have hs := h.enqueue .releaseMetadata rfl
    exact hs.stays (.refl _) rfl
  cases a with
  | status => exact hmoves hg rfl rfl
  | statusFail => exact (hleaves hg rfl).stays (.refl _) rfl
  | permit hasMetadata isPaused =>
    dsimp only [LoadStep.effect]
    split
    · exact (hleaves hg rfl).stays (.refl _) rfl
    · exact (hmoves (d := .metadataAnnounce isPaused) hg rfl rfl).stays (.refl _) rfl
  | announce isPaused => exact (hleaves hg rfl).stays (.refl _) rfl
  | record completeFromStart => exact hdone.stays (.refl _) rfl
  | fail loader => exact hdone
  | _ => exact h.stays (.refl _) rfl

/-- **Every step keeps the windows owned.** -/
theorem windowsOwned_step (hl : s.TasksLinked) {a : Action} (hg : a.guard s) :
    (a.effect s).WindowsOwned := by
  cases a with
  | surroundings a =>
    cases a with
    | observePieceVerified piece => exact h.enqueue _ rfl
    | observePieceInvalidated piece => exact h.enqueue _ rfl
    | _ => exact h.stays (.refl _) rfl
  | request a => exact windowsOwned_request h hg
  | acquire r =>
    have hin := inflight_acquire hg.1 hg.2
    refine h.keep (.refl _) ?_ rfl (fun _ hr => hin ▸ hr) (fun _ hact => Or.inl (hin ▸ hact))
    have hstart : r.start.readerCommand = r.readerCommand := by
      cases r <;> rfl
    rw [readerCommands, readerCommands, hg.1, hg.2]
    cases hr : r.readerCommand <;> simp [Action.effect, hstart, hr]
  | load a => exact windowsOwned_load h hg
  | activate act a => exact windowsOwned_activate h hg
  | pause p a => exact windowsOwned_pause h hg
  | update priorities caller a =>
    obtain ⟨c, hop, hreq, n, hgo, -⟩ := goes_update hg
    have hs : (s.update s.state n).WindowsOwned := h.stays (.refl _) rfl
    refine hs.goes hop ?_ hgo
    rw [hreq]
    cases caller <;> rintro _ ⟨⟩
  | changes baseline cs caller found =>
    cases caller with
    | activation act =>
      obtain ⟨n, hgo, -⟩ := goes_changes
      have hs : (s.update s.state n).WindowsOwned := h.stays (.refl _) rfl
      exact hs.goes hg (by rintro _ ⟨⟩) hgo
    | reader command =>
      -- the command has been carried out before
      have hdone : s.workerDone.WindowsOwned := by
        have hop : s.operation = some (.changes baseline cs (.reader command)) := hg
        have hin : s.inflight = .reader command :: s.workerDone.inflight := inflight_leave hop rfl rfl
        refine h.extend [] ?_ ?_ trivial (fun id hid => Or.inl ⟨rfl, hid⟩) ?_
        · simp [readerCommands, World.workerDone, hop, Critical.readerCommand]
        · intro o ho
          left
          rw [alive_iff, hin] at ho
          rw [alive_iff]
          refine ho.imp id ?_
          rintro ⟨r, hr, p, hp, howner⟩
          rcases List.mem_cons.mp hr with rfl | hr
          · cases hp
          · exact ⟨r, hr, p, hp, howner⟩
        · intro act hact
          left
          rw [hin]
          exact List.mem_cons_of_mem _ hact
      cases found with
      | true => exact hdone.stays (.refl _) rfl
      | false => exact hdone
  | worker a => exact windowsOwned_worker h hl hg

end Steps

theorem Initial.windowsOwned {s : World} (h : s.Initial) : s.WindowsOwned := by
  constructor
  · intro id hid
    rw [h.state] at hid
    exact absurd hid (ActivePriorityWindows.not_has_clearTracking (w := default))
  · rw [readerCommands, h.operation, h.lockQueue, h.queue]
    trivial
  · intro act hact
    rw [inflight_of_free h.operation, h.lockQueue] at hact
    cases hact

theorem windowsOwned_of_reach {C : World → Action → Prop} {s t : World} (hs : s.Initial)
    (h : coordinator.Reach C s t) : t.WindowsOwned :=
  h.invariant_of (fun _ hu => tasksLinked_of_reach hs hu) hs.windowsOwned
    fun _ _ hk hi hg _ => windowsOwned_step hi hk hg

/-! ### The law -/

/-- Every command a reader has sent has been carried out: none is in the queue, waits for the
operation lock, or is about to be carried out under it. -/
def Drained (s : World) : Prop := s.readerCommands = []

instance (s : World) : Decidable s.Drained := inferInstanceAs (Decidable (_ = _))

/-- **Overtaken commands are inert and windows do not leak.**  In every state of every run, a
command carried out for a generation that has passed, or for a window of a file that is not
selected, leaves the windows and the native torrent as they are; and once the commands of
readers have been carried out, every window belongs to a permit of the current generation
that somebody holds, or to HLS. -/
theorem windows_doNotLeak {s t : World} (hs : s.Initial)
    (hreach : coordinator.Reach GuardedSystem.anyStep s t) :
    (∀ command order, (Action.worker (.reader command order)).guard t → t.Overtaken command →
      (command.effect t order).state.priorityWindows = t.state.priorityWindows ∧
        (command.effect t order).native = t.native ∧ (command.effect t order).operation = none) ∧
      (t.Drained → ∀ id, t.state.priorityWindows.Has id →
        id = hlsPriorityStreamId ∨
          ∃ p ∈ t.held, p.generation = t.state.generation ∧ p.streamId = id) := by
  refine ⟨fun command order _ hstale => staleCommand_inert order hstale, fun hdrained id hid => ?_⟩
  rcases (windowsOwned_of_reach hs hreach).filed id hid with hls | ⟨p, hp, howner⟩ | ⟨c, hc, -⟩
  · exact Or.inl hls
  · exact Or.inr ⟨p, hp, congrArg Prod.fst howner, congrArg Prod.snd howner⟩
  · rw [hdrained] at hc
    cases hc

/-- A reader's window is filed while it reads; when another file is selected before its next
window is, that window is not filed. -/
theorem windows_doNotLeak_switching :
    (∃ t, coordinator.Reach GuardedSystem.anyStep (registered twoFiles false) t ∧
      t.state.priorityWindows.Has 0 ∧
        ∃ p ∈ t.held, p.generation = t.state.generation ∧ p.streamId = 0) ∧
      ∃ t, coordinator.Reach GuardedSystem.anyStep (registered twoFiles false) t ∧
        t.operation = some (.reader (.replaceWindow 0 1 0 [⟨0, 7, none⟩])) ∧
          (ReaderCommand.effect t .stored (.replaceWindow 0 1 0 [⟨0, 7, none⟩])).native =
            t.native := by
  have hinit : (registered twoFiles false).Initial := registered_initial rfl rfl false
  obtain ⟨t, ht, hdrained, hhas⟩ :
      ∃ t, coordinator.Reach GuardedSystem.anyStep (registered twoFiles false) t ∧
        t.Drained ∧ t.state.priorityWindows.Has 0 :=
    GuardedSystem.exists_reach_of_exec
      (Run.load ++ Run.read (Run.reader 0 1) [1, 0] ++ [.activate (Run.reader 0 1) (.resume false)])
      (by decide)
  obtain ⟨u, hu, hop, hstale⟩ :
      ∃ u, coordinator.Reach GuardedSystem.anyStep (registered twoFiles false) u ∧
        u.operation = some (.reader (.replaceWindow 0 1 0 [⟨0, 7, none⟩])) ∧
          u.Overtaken (.replaceWindow 0 1 0 [⟨0, 7, none⟩]) :=
    GuardedSystem.exists_reach_of_exec
      (Run.load ++ Run.read (Run.reader 0 1) [1, 0] ++
        [.activate (Run.reader 0 1) (.resume false),
          .request (.replaceWindow ⟨0, 1, 0, 1, true, true⟩ [⟨0, 7, none⟩]),
          .worker (.receive .releaseMetadata),
          .worker (.receive (.reader (.replaceWindow 0 1 0 [⟨0, 7, none⟩]))),
          .request (.startPlayback ⟨1, 1, 0, .directInitial⟩ false),
          .acquire (.reader (.replaceWindow 0 1 0 [⟨0, 7, none⟩]))])
      (by decide)
  refine ⟨⟨t, ht, hhas, ?_⟩, u, hu, hop, ?_⟩
  · rcases (windows_doNotLeak hinit ht).2 hdrained 0 hhas with hls | howner
    · exact absurd hls (by decide)
    · exact howner
  · exact ((windows_doNotLeak hinit hu).1 _ .stored hop hstale).2.1

end World

end StreamServer.Playback
