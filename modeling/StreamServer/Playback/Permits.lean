import Mathlib.Algebra.Order.BigOperators.Group.List
import Mathlib.Data.Multiset.OrderedMonoid
import Mathlib.Tactic.Abel
import StreamServer.Playback.Tasks

/-!
# Permits under way

A permit is counted from the moment it is issued until the worker handles its release.
In between it is on its way with the request that obtained it, or held by a reader, or
its release is in the queue or waits for the operation lock.  The permit of the loading
of the metadata is counted in the same way.  So a torrent without counted permits is one
that nobody holds a permit of.

## Main definitions

* `World.permitsUnderway` — the permits at all these places.
* `World.metadataUnderway` — the same for the loading of the metadata.
* `World.PermitsCounted` — the state counts exactly these.

## Main results

* `permitsCounted_step`, `permitsCounted_of_reach` — **every permit is counted once** in
  every reachable state.
-/

namespace StreamServer.Playback

/-! ### Where permits are -/

/-- What the state counts of a permit: its generation, and whether it is a foreground
one. -/
def Permit.counted (p : Permit) : ℕ × Bool := (p.generation, p.foreground)

/-- The permit a task carries. -/
def LockRequest.carried (r : LockRequest) : Multiset (ℕ × Bool) :=
  (r.permit.toList.map Permit.counted : List (ℕ × Bool))

/-- The permit that the command gives back. -/
def ReaderCommand.released : ReaderCommand → Multiset (ℕ × Bool)
  | .replaceWindow _ _ _ _ => 0
  | .release _ generation _ foreground => {(generation, foreground)}

/-- The permits that the command gives back. -/
def PlaybackCommand.released : PlaybackCommand → Multiset (ℕ × Bool)
  | .reader command => command.released
  | _ => 0

/-- A task that waits carries a permit, or is about to give one back. -/
def LockRequest.underway : LockRequest → Multiset (ℕ × Bool)
  | .reader command => command.released
  | r => r.carried

/-- A release is over once it goes on to apply its changes. -/
def Critical.underway : Critical → Multiset (ℕ × Bool)
  | .changes _ _ (.reader _) => 0
  | c => c.request.underway

/-- The loading has a permit until it gives up or is through. -/
def Loader.holdsPermit : Loader → Bool
  | .querying | .updating _ | .recording => true
  | .idle | .requesting => false

/-- The holder of the lock has a metadata permit. -/
def Critical.holdsMetadata : Critical → Bool
  | .metadataAnnounce _ => true
  | _ => false

/-- The tables of the state count exactly these permits. -/
structure TorrentPlaybackState.Counts (st : TorrentPlaybackState) (permits : Multiset (ℕ × Bool)) :
    Prop where
  direct : st.directPermits = permits.map Prod.fst
  foreground : st.foregroundPermits = (permits.filter fun p => p.2 = true).map Prod.fst

namespace TorrentPlaybackState

variable {st t : TorrentPlaybackState} {permits : Multiset (ℕ × Bool)}

theorem Counts.congr (h : st.Counts permits)
    (ht : t.directPermits = st.directPermits ∧ t.foregroundPermits = st.foregroundPermits) :
    t.Counts permits :=
  ⟨ht.1.trans h.direct, ht.2.trans h.foreground⟩

/-- A permit that is issued is counted. -/
theorem Counts.issue (h : st.Counts permits) {generation : ℕ} {foreground : Bool}
    (hdirect : t.directPermits = generation ::ₘ st.directPermits)
    (hforeground : t.foregroundPermits =
      if foreground then generation ::ₘ st.foregroundPermits else st.foregroundPermits) :
    t.Counts ((generation, foreground) ::ₘ permits) := by
  constructor
  · rw [hdirect, h.direct, Multiset.map_cons]
  · rw [hforeground, h.foreground]
    cases foreground with
    | true => simp
    | false => simp

/-- A permit that is given back is no longer counted. -/
theorem Counts.giveBack {generation : ℕ} {foreground : Bool}
    (h : st.Counts ((generation, foreground) ::ₘ permits)) :
    (st.dropPermit generation foreground).Counts permits := by
  constructor
  · rw [dropPermit, h.direct, Multiset.map_cons, Multiset.erase_cons_head]
  · rw [dropPermit, h.foreground]
    cases foreground with
    | true => simp
    | false => simp

end TorrentPlaybackState

namespace World

/-- The permits under way. -/
def permitsUnderway (s : World) : Multiset (ℕ × Bool) :=
  (s.permits.map Permit.counted : List (ℕ × Bool)) + (s.queue.map PlaybackCommand.released).sum +
    (s.lockQueue.map LockRequest.underway).sum + (s.operation.elim 0 Critical.underway)

/-- The loading of the metadata has its permit. -/
def holdsMetadata (s : World) : Bool :=
  s.loader.holdsPermit || s.operation.elim false Critical.holdsMetadata

/-- The metadata permits that are not counted as given back. -/
def metadataUnderway (s : World) : ℕ :=
  s.queue.count .releaseMetadata + s.holdsMetadata.toNat

/-- The permits a reader has, or will have when its request returns. -/
def held (s : World) : List Permit :=
  s.permits ++ s.inflight.flatMap fun r => r.permit.toList

/-- The tables count the permits that are under way. -/
structure PermitsCounted (s : World) : Prop where
  tables : s.state.Counts s.permitsUnderway
  metadata : s.state.metadataPermits = s.metadataUnderway

/-! ### What the places hold -/

theorem underway_of_not_reader {c : Critical} (hc : ∀ command, c.request ≠ .reader command) :
    c.underway = c.request.carried := by
  unfold Critical.underway
  split
  · next command => exact absurd rfl (hc command)
  · unfold LockRequest.underway
    split
    · next command heq => exact absurd heq (hc command)
    · rfl

theorem holdsMetadata_of_request {c : Critical} (hc : c.request ≠ .metadata) :
    c.holdsMetadata = false := by
  cases c with
  | metadataAnnounce isPaused => exact absurd rfl hc
  | _ => rfl

/-- What dropping the permits of a task puts into the queue. -/
theorem released_releaseCommand (r : LockRequest) :
    ((r.permit.toList.map Permit.releaseCommand).map PlaybackCommand.released).sum =
      r.carried := by
  unfold LockRequest.carried
  cases r.permit with
  | none => rfl
  | some p => simp [Permit.releaseCommand, Permit.release, PlaybackCommand.released,
      ReaderCommand.released, Permit.counted]

theorem count_releaseCommand (r : LockRequest) :
    (r.permit.toList.map Permit.releaseCommand).count .releaseMetadata = 0 := by
  rw [List.count_eq_zero, List.mem_map]
  rintro ⟨p, -, hp⟩
  cases hp

section Steps

variable {s t : World}

/-- A permit that is held is under way. -/
theorem mem_permitsUnderway {p : Permit} (hp : p ∈ s.held) : p.counted ∈ s.permitsUnderway := by
  rw [permitsUnderway]
  simp only [Multiset.mem_add, Multiset.mem_coe]
  rcases List.mem_append.mp hp with hp | hp
  · exact Or.inl (Or.inl (Or.inl (List.mem_map_of_mem hp)))
  · obtain ⟨r, hr, hrp⟩ := List.mem_flatMap.mp hp
    have hcarried : p.counted ∈ r.carried := Multiset.mem_coe.mpr (List.mem_map_of_mem hrp)
    have hreader : ∀ command, r ≠ .reader command := by
      intro command heq
      rw [heq] at hrp
      cases hrp
    rcases List.mem_append.mp hr with hr | hr
    · right
      obtain ⟨c, hop, rfl⟩ := Option.map_eq_some_iff.mp (Option.mem_toList.mp hr)
      rw [hop, Option.elim_some, underway_of_not_reader hreader]
      exact hcarried
    · left; right
      refine Multiset.mem_of_le (List.le_sum_of_mem (List.mem_map_of_mem hr)) ?_
      unfold LockRequest.underway
      split
      · next command _ => exact absurd rfl (hreader command)
      · exact hcarried

/-- Whoever holds a permit is counted. -/
theorem PermitsCounted.mem_direct (h : s.PermitsCounted) {p : Permit} (hp : p ∈ s.held) :
    p.generation ∈ s.state.directPermits := by
  rw [h.tables.direct]
  exact Multiset.mem_map_of_mem Prod.fst (mem_permitsUnderway hp)

/-- A torrent that nobody uses is one that nobody holds a permit of. -/
theorem PermitsCounted.nobody (h : s.PermitsCounted) (hdirect : s.state.directPermits = 0)
    (hmeta : s.state.metadataPermits = 0) : s.held = [] ∧ s.holdsMetadata = false := by
  constructor
  · rw [List.eq_nil_iff_forall_not_mem]
    intro p hp
    have hmem := h.mem_direct hp
    rw [hdirect] at hmem
    exact Multiset.notMem_zero _ hmem
  · have hzero := h.metadata
    rw [hmeta, metadataUnderway] at hzero
    cases hholds : s.holdsMetadata with
    | false => rfl
    | true =>
      rw [hholds, Bool.toNat_true] at hzero
      omega

/-- A step that moves permits around and issues or counts none. -/
theorem PermitsCounted.keep (h : s.PermitsCounted)
    (htables : t.state.directPermits = s.state.directPermits ∧
      t.state.foregroundPermits = s.state.foregroundPermits)
    (hmeta : t.state.metadataPermits = s.state.metadataPermits)
    (hpermits : t.permitsUnderway = s.permitsUnderway)
    (hloading : t.metadataUnderway = s.metadataUnderway) : t.PermitsCounted := by
  constructor
  · rw [hpermits]
    exact h.tables.congr htables
  · rw [hmeta, hloading]
    exact h.metadata

/-- A command that gives nothing back is added to the queue. -/
theorem PermitsCounted.enqueue (h : s.PermitsCounted) (command : PlaybackCommand)
    (hreleased : command.released = 0) (hmeta : command ≠ .releaseMetadata) :
    ({ s with queue := s.queue ++ [command] } : World).PermitsCounted := by
  refine h.keep ⟨rfl, rfl⟩ rfl ?_ ?_
  · simp [permitsUnderway, hreleased]
  · simp [metadataUnderway, hmeta, holdsMetadata]

/-- A task that carries no permit starts to wait. -/
theorem PermitsCounted.wait (h : s.PermitsCounted) (r : LockRequest) (hr : r.underway = 0) :
    ({ s with lockQueue := s.lockQueue ++ [r] } : World).PermitsCounted := by
  refine h.keep ⟨rfl, rfl⟩ rfl ?_ rfl
  simp [permitsUnderway, hr]

/-- However the holder of the lock goes on, its permit stays under way. -/
theorem PermitsCounted.goes (h : s.PermitsCounted) {c : Critical} (hop : s.operation = some c)
    (hreader : ∀ command, c.request ≠ .reader command) (hmeta : c.request ≠ .metadata)
    (hgo : s.Goes c t) : t.PermitsCounted := by
  have hc := underway_of_not_reader hreader
  have hm := holdsMetadata_of_request hmeta
  cases hgo with
  | moves d hd =>
    have hd' : d.underway = c.underway := by
      rw [hc, underway_of_not_reader (by rwa [hd]), hd]
    have hmd := holdsMetadata_of_request (c := d) (by rwa [hd])
    refine h.keep ⟨rfl, rfl⟩ rfl ?_ ?_
    · simp [permitsUnderway, hop, hd']
    · simp [metadataUnderway, holdsMetadata, hop, hm, hmd]
  | granted =>
    refine h.keep ⟨rfl, rfl⟩ rfl ?_ ?_
    · simp only [permitsUnderway, hop, Option.elim_some, Option.elim_none, hc, List.map_append,
        ← Multiset.coe_add, LockRequest.carried]
      abel
    · simp [metadataUnderway, holdsMetadata, hop, hm]
  | dropped =>
    refine h.keep ⟨rfl, rfl⟩ rfl ?_ ?_
    · simp only [permitsUnderway, hop, Option.elim_some, Option.elim_none, hc, List.map_append,
        List.sum_append, released_releaseCommand]
      abel
    · simp [metadataUnderway, holdsMetadata, hop, hm, count_releaseCommand]
  | handedOver act hact =>
    refine h.keep ⟨rfl, rfl⟩ rfl ?_ ?_
    · simp only [permitsUnderway, hop, Option.elim_some, Option.elim_none, hc, List.map_append,
        List.sum_append, List.map_singleton, List.sum_singleton, hact]
      have hpause : LockRequest.underway
          (.pause (newPause s.now s.state act.generation (.activation act))) =
            (LockRequest.activate act).carried := rfl
      rw [hpause]
      abel
    · simp [metadataUnderway, holdsMetadata, hop, hm]

/-- Nobody comes by a permit but by a request. -/
theorem Goes.held {c : Critical} (hgo : s.Goes c t) (hop : s.operation = some c) :
    ∀ p ∈ t.held, p ∈ s.held := by
  have hmem : c.request ∈ s.inflight := by
    rw [inflight_of_held hop]
    exact List.mem_cons_self
  have hkept : ∀ r ∈ s.inflight, ∀ p ∈ r.permit.toList, p ∈ s.held := fun r hr p hp =>
    List.mem_append_right _ (List.mem_flatMap.mpr ⟨r, hr, hp⟩)
  -- the permits that come with the tasks
  have htasks : ∀ p ∈ t.inflight.flatMap (fun r => r.permit.toList), p ∈ s.held := by
    intro p hp
    obtain ⟨r, hr, hp⟩ := List.mem_flatMap.mp hp
    rcases hgo.inflight hop r hr with hr | ⟨act, hact, rfl⟩
    · exact hkept r hr p hp
    · exact hkept c.request hmem p (by rw [hact]; exact hp)
  intro p hp
  rcases List.mem_append.mp hp with hp | hp
  · cases hgo with
    | granted =>
      rcases List.mem_append.mp hp with hp | hp
      · exact List.mem_append_left _ hp
      · exact hkept _ hmem p hp
    | _ => exact List.mem_append_left _ hp
  · exact htasks p hp

/-- The permit for the metadata comes and goes with its own task only. -/
theorem Goes.holdsMetadata {c : Critical} (hgo : s.Goes c t) (hop : s.operation = some c)
    (hc : c.request ≠ .metadata) : t.holdsMetadata = s.holdsMetadata := by
  have hnone := holdsMetadata_of_request hc
  cases hgo with
  | moves d hd =>
    have hnone' := holdsMetadata_of_request (c := d) (by rwa [hd])
    simp [World.holdsMetadata, hop, hnone, hnone']
  | _ => simp [World.holdsMetadata, hop, hnone]

/-! ### Every step counts them -/

variable (h : s.PermitsCounted)

include h

theorem permitsCounted_request {a : RequestStep} (hg : a.guard s) :
    (a.effect s).PermitsCounted := by
  cases a with
  | setSeedingEnabled enabled =>
    have hs := h.enqueue (.seedingEnabled enabled) rfl (by rintro ⟨⟩)
    exact hs.keep ⟨rfl, rfl⟩ rfl rfl rfl
  | loadMetadata =>
    have hs := h.wait .metadata rfl
    refine hs.keep ⟨rfl, rfl⟩ rfl rfl ?_
    simp [metadataUnderway, holdsMetadata, RequestStep.effect, hg.2, Loader.holdsPermit]
  -- the permit is counted at once and travels with the activation that waits for the lock
  | startPlayback start complete =>
    dsimp only [RequestStep.effect]
    split
    · exact h
    · next st selection hgranted =>
      obtain ⟨hdirect, hforeground, hmeta⟩ := s.state.startPlayback_permits s.now hgranted
      have hnew : World.permitsUnderway { s with
          state := st
          lockQueue := s.lockQueue ++ [.activate (.ofStart start selection complete)] } =
            (selection.generation, start.intent.isForeground) ::ₘ s.permitsUnderway := by
        simp only [permitsUnderway, List.map_append, List.sum_append, List.map_singleton,
          List.sum_singleton]
        rw [show LockRequest.underway (.activate (.ofStart start selection complete)) =
          {(selection.generation, start.intent.isForeground)} from rfl, ← Multiset.singleton_add]
        abel
      refine ⟨?_, hmeta.trans h.metadata⟩
      rw [hnew]
      exact h.tables.issue hdirect hforeground
  -- HLS playback has a deadline and no permit
  | refreshHls fileIdx complete =>
    have hsame : ∀ st : TorrentPlaybackState × Selection,
        st = s.state.refreshHls s.now s.seedingEnabled fileIdx complete →
          (st.1.directPermits = s.state.directPermits ∧
            st.1.foregroundPermits = s.state.foregroundPermits) ∧
              st.1.metadataPermits = s.state.metadataPermits := by
      intro st hst
      rw [hst, TorrentPlaybackState.refreshHls]
      rcases s.state.select_spec s.now fileIdx (TorrentPlaybackState.hlsPriority complete) false
        true (!complete || s.seedingEnabled) false with ⟨-, heq⟩ | ⟨-, heq⟩
      · rw [heq]
        exact ⟨⟨rfl, rfl⟩, rfl⟩
      · rw [heq]
        exact ⟨⟨rfl, rfl⟩, rfl⟩
    obtain ⟨htables, hmeta⟩ := hsame _ rfl
    dsimp only [RequestStep.effect]
    split
    · exact (h.wait (.activate (.ofHls fileIdx _ complete)) rfl).keep htables hmeta rfl rfl
    · exact h.keep htables hmeta rfl rfl
  | endHls fileIdx =>
    dsimp only [RequestStep.effect, World.endHls, TorrentPlaybackState.endHls]
    by_cases hignored : s.state.selectedFile ≠ some fileIdx ∧ s.state.hlsLastActivity = none
    · rw [if_pos hignored]
      exact h
    · rw [if_neg hignored]
      split
      · exact h.keep ⟨rfl, rfl⟩ rfl rfl rfl
      · exact h.keep ⟨rfl, rfl⟩ rfl rfl rfl
      · exact h.keep ⟨rfl, rfl⟩ rfl rfl rfl
      · next generation _ =>
        exact (h.wait (.pause (newPause s.now s.state.beginPause generation .endHls)) rfl).keep ⟨rfl, rfl⟩ rfl
          rfl rfl
  | finishEndHls rest =>
    cases rest with
    | keepActiveForSeeding generation =>
      rcases s.state.keepActiveForSeeding_spec generation with heq | ⟨-, -, heq⟩ <;>
        simp only [RequestStep.effect, EndHlsRest.effect, heq] <;> exact h.keep ⟨rfl, rfl⟩ rfl rfl rfl
    | restorePausedIdle beganIdle => exact h.keep ⟨rfl, rfl⟩ rfl rfl rfl
  | replaceWindow permit assignments => exact h.enqueue _ rfl (by rintro ⟨⟩)
  -- the permit moves from its holder into the release that is sent
  | dropPermit permit =>
    have hpermits : (s.permits.map Permit.counted : Multiset (ℕ × Bool)) =
        permit.counted ::ₘ ((s.permits.erase permit).map Permit.counted : List (ℕ × Bool)) := by
      rw [Multiset.cons_coe, ← List.map_cons (f := Permit.counted)]
      exact Multiset.coe_eq_coe.mpr ((List.perm_cons_erase hg).map _)
    refine h.keep ⟨rfl, rfl⟩ rfl ?_ ?_
    · simp only [permitsUnderway, RequestStep.effect, hpermits, List.map_append, List.sum_append,
        List.map_singleton, List.sum_singleton, ← Multiset.singleton_add]
      rw [show permit.releaseCommand.released = {permit.counted} from rfl]
      abel
    · simp [metadataUnderway, RequestStep.effect, Permit.releaseCommand, holdsMetadata]

/-- The loading is over, and its permit is on the way back. -/
theorem PermitsCounted.loadDone (hl : s.TasksLinked) (hloader : s.loader.holdsPermit = true) :
    s.loadDone.PermitsCounted := by
  -- the loader holds the permit of the metadata, so the holder of the lock has none
  have hop : s.operation.elim false Critical.holdsMetadata = false := by
    cases hop : s.operation with
    | none => rfl
    | some c =>
      refine holdsMetadata_of_request fun hc => ?_
      rw [(hl.metadataHolder hop hc).1] at hloader
      cases hloader
  refine h.keep ⟨rfl, rfl⟩ rfl ?_ ?_
  · simp [permitsUnderway, World.loadDone, PlaybackCommand.released]
  · simp only [metadataUnderway, holdsMetadata, World.loadDone, hop, hloader, List.count_append,
      List.count_singleton_self, Bool.or_false]
    rfl

omit h in
/-- The holder that loads the metadata carries no permit of a reader. -/
theorem permitsUnderway_loading {c : Critical} (hop : s.operation = some c)
    (hc : c.request = .metadata)
    (hop' : t.operation = none ∨ ∃ d, t.operation = some d ∧ d.request = .metadata)
    (hpermits : t.permits = s.permits) (hqueue : t.queue = s.queue)
    (hlock : t.lockQueue = s.lockQueue) : t.permitsUnderway = s.permitsUnderway := by
  have hzero : ∀ {d : Critical}, d.request = .metadata → d.underway = 0 := by
    intro d hd
    rw [underway_of_not_reader (by rw [hd]; rintro _ ⟨⟩), hd]
    rfl
  rw [permitsUnderway, permitsUnderway, hpermits, hqueue, hlock, hop, Option.elim_some, hzero hc]
  rcases hop' with hnone | ⟨d, hd, hreq⟩
  · rw [hnone, Option.elim_none]
  · rw [hd, Option.elim_some, hzero hreq]

theorem permitsCounted_load (hl : s.TasksLinked) {a : LoadStep} (hg : a.guard s) :
    (a.effect s).PermitsCounted := by
  cases a with
  | status =>
    refine h.keep ⟨rfl, rfl⟩ rfl (permitsUnderway_loading hg rfl (Or.inr ⟨_, rfl, rfl⟩) rfl rfl rfl) ?_
    simp [metadataUnderway, holdsMetadata, LoadStep.effect, show s.operation = _ from hg,
      Critical.holdsMetadata]
  | statusFail =>
    obtain ⟨hloader, -, -⟩ := hl.metadataHolder hg rfl
    refine h.keep ⟨rfl, rfl⟩ rfl (permitsUnderway_loading hg rfl (Or.inl rfl) rfl rfl rfl) ?_
    simp [metadataUnderway, holdsMetadata, LoadStep.effect, show s.operation = _ from hg,
      Critical.holdsMetadata, hloader, Loader.holdsPermit]
  -- the count goes up by the permit that the loader, or the holder, has from now on
  | permit hasMetadata isPaused =>
    have hop : s.operation = some (.metadataPermit hasMetadata isPaused) := hg
    obtain ⟨hloader, -, -⟩ := hl.metadataHolder hop rfl
    have hnone : s.holdsMetadata = false := by
      rw [holdsMetadata, hloader, hop]
      rfl
    have hmeta := h.metadata
    rw [metadataUnderway, hnone] at hmeta
    dsimp only [LoadStep.effect]
    split
    · refine ⟨?_, (congrArg Nat.succ hmeta).trans ?_⟩
      · have hsame : World.permitsUnderway { s with
            state := s.state.acquireMetadata hasMetadata, operation := none, loader := .querying } =
              s.permitsUnderway := permitsUnderway_loading hop rfl (Or.inl rfl) rfl rfl rfl
        rw [hsame]
        exact h.tables.congr ⟨rfl, rfl⟩
      · simp [metadataUnderway, holdsMetadata, Loader.holdsPermit]
    · refine ⟨?_, (congrArg Nat.succ hmeta).trans ?_⟩
      · have hsame : World.permitsUnderway { s with
            state := s.state.acquireMetadata hasMetadata
            operation := some (.metadataAnnounce isPaused) } = s.permitsUnderway :=
          permitsUnderway_loading hop rfl (Or.inr ⟨_, rfl, rfl⟩) rfl rfl rfl
        rw [hsame]
        exact h.tables.congr ⟨rfl, rfl⟩
      · simp [metadataUnderway, holdsMetadata, Critical.holdsMetadata]
  | announce isPaused =>
    refine h.keep ⟨rfl, rfl⟩ rfl (permitsUnderway_loading hg rfl (Or.inl rfl) rfl rfl rfl) ?_
    simp [metadataUnderway, holdsMetadata, LoadStep.effect, show s.operation = _ from hg,
      Critical.holdsMetadata, Loader.holdsPermit]
  -- the steps of the loader keep its permit until it is done
  | query =>
    refine h.keep ⟨rfl, rfl⟩ rfl rfl ?_
    simp only [metadataUnderway, holdsMetadata, LoadStep.effect, hg.1]
    split <;> rfl
  | probe =>
    refine h.keep ⟨rfl, rfl⟩ rfl rfl ?_
    simp only [metadataUnderway, holdsMetadata, LoadStep.effect, show s.loader = _ from hg]
    split <;> rfl
  | submit =>
    refine h.keep ⟨rfl, rfl⟩ rfl rfl ?_
    simp only [metadataUnderway, holdsMetadata, LoadStep.effect, show s.loader = _ from hg]
    rfl
  | acknowledged =>
    refine h.keep ⟨rfl, rfl⟩ rfl rfl ?_
    simp only [metadataUnderway, holdsMetadata, LoadStep.effect, hg.1]
    rfl
  | record completeFromStart =>
    have hdone := h.loadDone hl (by rw [show s.loader = _ from hg]; rfl)
    exact hdone.keep ⟨rfl, rfl⟩ rfl rfl rfl
  -- only a loader that holds the permit can fail
  | fail loader =>
    refine h.loadDone hl ?_
    rw [hg.1]
    have hmay := hg.2
    cases loader with
    | idle => cases hmay
    | requesting => cases hmay
    | _ => rfl

theorem permitsCounted_pause {p : Pause} {a : PauseStep} (hg : a.guard s p) :
    (a.effect s p).PermitsCounted := by
  obtain ⟨c, hop, hreq, st, n, hgo, hst, -⟩ := goes_pause hg
  have hsame : (st.directPermits = s.state.directPermits ∧
      st.foregroundPermits = s.state.foregroundPermits) ∧
        st.metadataPermits = s.state.metadataPermits := by
    rcases hst with rfl | ⟨zeros, -, rfl⟩
    · exact ⟨⟨rfl, rfl⟩, rfl⟩
    · unfold TorrentPlaybackState.finishPause
      split <;> exact ⟨⟨rfl, rfl⟩, rfl⟩
  have hs : (s.update st n).PermitsCounted := h.keep hsame.1 hsame.2 rfl rfl
  exact hs.goes hop (by rw [hreq]; rintro _ ⟨⟩) (by rw [hreq]; rintro ⟨⟩) hgo

/-- The worker hands a command over, or gives a permit back. -/
theorem permitsCounted_receive {command : PlaybackCommand}
    (hg : (WorkerStep.receive command).guard s) : (command.effect s).PermitsCounted := by
  have hq := hg.2
  have htables := h.tables
  have hmeta := h.metadata
  -- what is still to be received, and the command that is received now
  have hpermits : s.permitsUnderway = command.released + s.handled.permitsUnderway := by
    rw [permitsUnderway, hq]
    simp only [permitsUnderway, World.handled, List.map_cons, List.sum_cons]
    abel
  have hloading : s.metadataUnderway =
      (if command = .releaseMetadata then 1 else 0) + s.handled.metadataUnderway := by
    rw [metadataUnderway, hq, List.count_cons]
    simp only [metadataUnderway, World.handled, beq_iff_eq, holdsMetadata]
    omega
  rw [hpermits] at htables
  rw [hloading] at hmeta
  have hrest : command.released = 0 → command ≠ .releaseMetadata →
      ∀ {u : World}, u.permitsUnderway = s.handled.permitsUnderway →
        u.metadataUnderway = s.handled.metadataUnderway →
          u.state.directPermits = s.state.directPermits ∧
            u.state.foregroundPermits = s.state.foregroundPermits →
              u.state.metadataPermits = s.state.metadataPermits → u.PermitsCounted := by
    intro hreleased hne u hu hu' hsame hm
    refine ⟨?_, ?_⟩
    · rw [hreleased, zero_add] at htables
      rw [hu]
      exact htables.congr hsame
    · rw [hm, hu', hmeta, if_neg hne, Nat.zero_add]
  cases command with
  | reader command =>
    have hsame : ((PlaybackCommand.reader command).effect s).permitsUnderway =
        (PlaybackCommand.reader command).released + s.handled.permitsUnderway := by
      simp only [permitsUnderway, PlaybackCommand.effect, World.awaitLock, World.handled,
        List.map_append, List.sum_append, List.map_singleton, List.sum_singleton]
      rw [show LockRequest.underway (.reader command) = (PlaybackCommand.reader command).released
        from rfl]
      abel
    refine ⟨?_, hmeta.trans (Nat.zero_add _)⟩
    rw [hsame]
    exact htables.congr ⟨rfl, rfl⟩
  | releaseMetadata =>
    obtain ⟨deadline, heq, -⟩ := TorrentPlaybackState.scheduleIdleIfNeeded_spec
      { s.state with metadataPermits := s.state.metadataPermits - 1 } s.now
    have hcount : s.state.metadataPermits - 1 = s.handled.metadataUnderway := by
      rw [hmeta, if_pos rfl]
      omega
    constructor
    · simp only [PlaybackCommand.effect, TorrentPlaybackState.releaseMetadata, heq]
      have hrest : s.state.Counts (0 + s.handled.permitsUnderway) := htables
      rw [zero_add] at hrest
      exact hrest.congr ⟨rfl, rfl⟩
    · simp only [PlaybackCommand.effect, TorrentPlaybackState.releaseMetadata, heq]
      exact hcount
  | seedingEnabled enabled =>
    cases enabled with
    | true =>
      refine hrest rfl (by rintro ⟨⟩) ?_ rfl ⟨rfl, rfl⟩ rfl
      simp [permitsUnderway, PlaybackCommand.effect, World.awaitLock, LockRequest.underway,
        LockRequest.carried, LockRequest.permit]
    | false =>
      obtain ⟨deadline, heq, -⟩ := s.state.scheduleIdleIfNeeded_spec s.now
      refine hrest rfl (by rintro ⟨⟩) rfl rfl ?_ ?_
      · simp only [PlaybackCommand.effect, World.handled, heq, and_self]
      · simp only [PlaybackCommand.effect, World.handled, heq]
  | pieceVerified piece => exact hrest rfl (by rintro ⟨⟩) rfl rfl ⟨rfl, rfl⟩ rfl
  | pieceInvalidated piece => exact hrest rfl (by rintro ⟨⟩) rfl rfl ⟨rfl, rfl⟩ rfl

theorem PermitsCounted.workerPause {p : Pause} (hp : p.permit = none) :
    (s.workerPause p).PermitsCounted := by
  unfold World.workerPause
  split
  · exact h.keep ⟨rfl, rfl⟩ rfl rfl rfl
  · have hr : LockRequest.underway (.pause p) = 0 := by
      simp [LockRequest.underway, LockRequest.carried, LockRequest.permit, hp]
    exact (h.wait (.pause p) hr).keep ⟨rfl, rfl⟩ rfl rfl rfl

omit h in
/-- A reader's command has been carried out on the state; what it gives back is no longer
counted, and no longer under way either. -/
theorem permitsCounted_applyNext {command : ReaderCommand} (baseline : ℤ)
    (cs : List PiecePriorityChange) (hop : s.operation = some (.reader command))
    (htables : ∀ permits, s.permitsUnderway = command.released + permits →
      s.state.Counts permits)
    (hmeta : s.state.metadataPermits = s.metadataUnderway) :
    (s.applyNext baseline cs (.reader command)).PermitsCounted := by
  have hunderway : (Critical.reader command).underway = command.released := rfl
  have hcounts := htables ((s.permits.map Permit.counted : List (ℕ × Bool)) +
    (s.queue.map PlaybackCommand.released).sum + (s.lockQueue.map LockRequest.underway).sum)
      (by rw [permitsUnderway, hop, Option.elim_some, hunderway, add_comm])
  rw [metadataUnderway, holdsMetadata, hop] at hmeta
  unfold World.applyNext World.changesDone World.workerDone
  split
  · refine ⟨?_, hmeta⟩
    simpa [permitsUnderway] using hcounts
  · refine ⟨?_, hmeta⟩
    simpa [permitsUnderway, Critical.underway] using hcounts

/-- The worker carries out a reader's command under the lock. -/
theorem permitsCounted_reader {command : ReaderCommand} {order : IterationOrder}
    (hop : s.operation = some (.reader command)) : (command.effect s order).PermitsCounted := by
  have htables := h.tables
  cases command with
  | replaceWindow fileIdx generation streamId assignments =>
    have hsame : ∀ permits, s.permitsUnderway = 0 + permits → s.state.Counts permits := by
      intro permits heq
      rwa [heq, zero_add] at htables
    dsimp only [ReaderCommand.effect, World.replaceWindowLocked]
    split
    · refine permitsCounted_applyNext _ _ hop (fun permits heq => ?_) h.metadata
      exact (hsame permits heq).congr ⟨rfl, rfl⟩
    · exact permitsCounted_applyNext 0 [] hop hsame h.metadata
  | release fileIdx generation streamId foreground =>
    obtain ⟨deadline, heq, -⟩ :=
      s.state.releasePlayback_spec s.now generation order streamId foreground
    dsimp only [ReaderCommand.effect]
    rw [heq]
    refine permitsCounted_applyNext _ _ hop (fun permits hunderway => ?_) h.metadata
    have hback : s.permitsUnderway = (generation, foreground) ::ₘ permits := hunderway
    rw [hback] at htables
    exact htables.giveBack.congr ⟨rfl, rfl⟩

theorem permitsCounted_worker (hl : s.TasksLinked) {a : WorkerStep} (hg : a.guard s) :
    (a.effect s).PermitsCounted := by
  -- what the worker does to its own state moves no permit
  have hwork : ∀ {st : TorrentPlaybackState} {w : Worker},
      st.directPermits = s.state.directPermits ∧
          st.foregroundPermits = s.state.foregroundPermits →
        st.metadataPermits = s.state.metadataPermits →
          ({ s with state := st, worker := w } : World).PermitsCounted :=
    fun htables hm => h.keep htables hm rfl rfl
  cases a with
  | tick =>
    dsimp only [WorkerStep.effect]
    split
    · exact h
    · exact h.keep ⟨rfl, rfl⟩ rfl rfl rfl
  | decide now =>
    dsimp only [WorkerStep.effect]
    rcases s.state.pauseIfDue_spec now with heq | heq | ⟨-, -, hls, heq⟩ | ⟨-, heq⟩ <;> rw [heq] <;>
      exact hwork ⟨rfl, rfl⟩ rfl
  -- the pauses of the worker carry no permit
  | enterPause p =>
    refine h.workerPause ?_
    have hcaller := hl.caller p (by rw [show s.worker = _ from hg]; rfl)
    rcases hcaller with hp | hp <;> rw [Pause.permit, hp]
  | keepActive p =>
    dsimp only [WorkerStep.effect]
    rcases s.state.keepActiveForSeeding_spec p.generation with heq | ⟨-, -, heq⟩ <;> rw [heq] <;>
      exact hwork ⟨rfl, rfl⟩ rfl
  | failedPause p =>
    dsimp only [WorkerStep.effect, TorrentPlaybackState.retryPause]
    refine hwork ⟨?_, ?_⟩ ?_ <;> split <;> split <;> rfl
  | receive command => exact permitsCounted_receive h hg
  | checkComplete fileIdx generation complete =>
    dsimp only [WorkerStep.effect]
    split
    · have hs : ({ s with state := { s.state with phase := .pausePending } } :
          World).PermitsCounted := h.keep ⟨rfl, rfl⟩ rfl rfl rfl
      exact hs.workerPause rfl
    · exact h.keep ⟨rfl, rfl⟩ rfl rfl rfl
  | reader command order => exact permitsCounted_reader h hg
  | resumeCheck =>
    dsimp only [WorkerStep.effect]
    have hs : ({ s with state := { s.state with idleDeadline := none } } : World).PermitsCounted :=
      h.keep ⟨rfl, rfl⟩ rfl rfl rfl
    split
    · exact hs.goes hg (by rintro _ ⟨⟩) (by rintro ⟨⟩) (goes_workerDone rfl rfl)
    · exact hs.goes hg (by rintro _ ⟨⟩) (by rintro ⟨⟩) (.moves _ rfl)
  | resumeNative =>
    have hs : ({ s with native := { s.native with isPaused := false } } : World).PermitsCounted :=
      h.keep ⟨rfl, rfl⟩ rfl rfl rfl
    exact hs.goes hg (by rintro _ ⟨⟩) (by rintro ⟨⟩) (.moves _ rfl)
  | resumeFail => exact h.goes hg (by rintro _ ⟨⟩) (by rintro ⟨⟩) (goes_workerDone rfl rfl)
  | resumePhase =>
    have hs : ({ s with state := { s.state with phase := .active } } : World).PermitsCounted :=
      h.keep ⟨rfl, rfl⟩ rfl rfl rfl
    exact hs.goes hg (by rintro _ ⟨⟩) (by rintro ⟨⟩) (goes_workerDone rfl rfl)

/-- **Every step counts every permit once.** -/
theorem permitsCounted_step (hl : s.TasksLinked) {a : Action} (hg : a.guard s) :
    (a.effect s).PermitsCounted := by
  cases a with
  | surroundings a =>
    cases a with
    | observePieceVerified piece => exact h.enqueue _ rfl (by rintro ⟨⟩)
    | observePieceInvalidated piece => exact h.enqueue _ rfl (by rintro ⟨⟩)
    | _ => exact h.keep ⟨rfl, rfl⟩ rfl rfl rfl
  | request a => exact permitsCounted_request h hg
  -- the permit of the request becomes the permit of the holder
  | acquire r =>
    obtain ⟨hop, hq⟩ := hg
    have hstart : r.start.underway = r.underway := by cases r <;> rfl
    have hmeta : r.start.holdsMetadata = false := by cases r <;> rfl
    refine h.keep ⟨rfl, rfl⟩ rfl ?_ ?_
    · rw [permitsUnderway, permitsUnderway, hop, hq]
      simp only [Action.effect, List.map_cons, List.sum_cons, Option.elim_some, Option.elim_none,
        hstart]
      abel
    · simp [metadataUnderway, holdsMetadata, Action.effect, hop, hmeta]
  | load a => exact permitsCounted_load h hl hg
  | activate act a =>
    obtain ⟨hop, st, n, hgo, hst, -, -, hforeground, -⟩ := goes_activate hg
    have hs : (s.update st n).PermitsCounted :=
      h.keep ⟨congrArg Attendance.directPermits hst, hforeground⟩
        (congrArg Attendance.metadataPermits hst) rfl rfl
    exact hs.goes hop (by rintro _ ⟨⟩) (by rintro ⟨⟩) hgo
  | pause p a => exact permitsCounted_pause h hg
  | update priorities caller a =>
    obtain ⟨c, hop, hreq, n, hgo, -⟩ := goes_update hg
    have hs : (s.update s.state n).PermitsCounted := h.keep ⟨rfl, rfl⟩ rfl rfl rfl
    refine hs.goes hop ?_ ?_ hgo
    · rw [hreq]
      cases caller <;> rintro _ ⟨⟩
    · rw [hreq]
      cases caller <;> rintro ⟨⟩
  | changes baseline cs caller found =>
    cases caller with
    | activation act =>
      obtain ⟨n, hgo, -⟩ := goes_changes
      have hs : (s.update s.state n).PermitsCounted := h.keep ⟨rfl, rfl⟩ rfl rfl rfl
      exact hs.goes hg (by rintro _ ⟨⟩) (by rintro ⟨⟩) hgo
    -- the command that replaces a window carries no permit
    | reader command =>
      have hop : s.operation = some (.changes baseline cs (.reader command)) := hg
      have hdone : s.workerDone.PermitsCounted := by
        refine h.keep ⟨rfl, rfl⟩ rfl ?_ ?_
        · simp [permitsUnderway, World.workerDone, hop, Critical.underway]
        · simp [metadataUnderway, holdsMetadata, World.workerDone, hop, Critical.holdsMetadata]
      cases found with
      | true => exact hdone.keep ⟨rfl, rfl⟩ rfl rfl rfl
      | false => exact hdone.keep ⟨rfl, rfl⟩ rfl rfl rfl
  | worker a => exact permitsCounted_worker h hl hg

end Steps

theorem Initial.permitsCounted {s : World} (h : s.Initial) : s.PermitsCounted := by
  constructor
  · rw [h.state, permitsUnderway, h.permits, h.queue, h.lockQueue, h.operation]
    exact ⟨rfl, rfl⟩
  · rw [h.state, metadataUnderway, holdsMetadata, h.queue, h.loader, h.operation]
    rfl

theorem permitsCounted_of_reach {C : World → Action → Prop} {s t : World} (hs : s.Initial)
    (h : coordinator.Reach C s t) : t.PermitsCounted :=
  h.invariant_of (fun _ hu => tasksLinked_of_reach hs hu) hs.permitsCounted
    fun _ _ hk hi hg _ => permitsCounted_step hi hk hg

end World

end StreamServer.Playback
