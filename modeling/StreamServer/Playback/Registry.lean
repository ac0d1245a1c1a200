import Mathlib.Algebra.Order.Group.Multiset
import Mathlib.Data.Multiset.Filter
import Mathlib.Data.Multiset.MapFold
import StreamServer.Lib.GuardedSystem
import StreamServer.Playback.State

/-!
# The registry of torrents

The coordinator keeps one entry for each registered torrent, under its info hash.
Requests hold on to the entry they have looked up, also when the torrent is removed
meanwhile.  A permit remembers the info hash only, so the command that releases it
is handled on the entry registered *then*: after a removal that is none, and a new
entry is made, or the entry of the same torrent added again.

Info hashes are taken in lower case.  Removing a torrent also cancels the token of
its readers; when they drop their permits is left open anyway.

## Main definitions

* `Registry` — the entries, and the permits and commands under way.
* `registry` — the transition system.
* `Registry.ReleasesFit` — the condition: a release is handled on the entry that
  issued the permit, or finds nothing there to take.

## Main results

* `permits_accounted` — **every registered entry counts exactly the permits it has
  issued and not seen released.**

## References

`enginefs/src/backend/libtorrent/playback.rs`, `entry`, `remove_torrent`,
`handle_command`.
-/

namespace StreamServer.Playback

/-- A permit to play a file.  The entry that issued it is not part of the code's
permit, and nothing that handles a command reads it. -/
structure IssuedPermit where
  infoHash : String
  issuer : ℕ
  fileIdx : ℕ
  generation : ℕ
  streamId : ℕ
  foreground : Bool
  deriving DecidableEq, Repr

/-- A permit to load metadata, with the entry that issued it. -/
structure IssuedMetadataPermit where
  infoHash : String
  issuer : ℕ
  generation : ℕ
  deriving DecidableEq, Repr

/-- The command a dropped permit sends. -/
inductive ReleaseCommand
  | releasePlayback (permit : IssuedPermit)
  | releaseMetadata (permit : IssuedMetadataPermit)
  deriving DecidableEq, Repr

namespace ReleaseCommand

/-- The torrent of the permit that is dropped. -/
def infoHash : ReleaseCommand → String
  | releasePlayback permit => permit.infoHash
  | releaseMetadata permit => permit.infoHash

/-- The entry that issued the permit. -/
def issuer : ReleaseCommand → ℕ
  | releasePlayback permit => permit.issuer
  | releaseMetadata permit => permit.issuer

/-- The permit, if it is one for playback. -/
def playback? : ReleaseCommand → Option IssuedPermit
  | releasePlayback permit => some permit
  | releaseMetadata _ => none

/-- The permit, if it is one for metadata. -/
def metadata? : ReleaseCommand → Option IssuedMetadataPermit
  | releasePlayback _ => none
  | releaseMetadata permit => some permit

/-- What handling the command does to the state of the entry found. -/
def apply (order : IterationOrder) (now : ℕ) (st : TorrentPlaybackState) :
    ReleaseCommand → TorrentPlaybackState
  | releasePlayback p => (st.releasePlayback order now p.generation p.streamId p.foreground).1
  | releaseMetadata _ => st.releaseMetadata now

end ReleaseCommand

/-- The updates of an entry that issue no permit and release none. -/
inductive EntryUpdate
  | refreshHls (now : ℕ) (seedingEnabled : Bool) (fileIdx : ℕ) (complete : Bool)
  | endHls (seedingEnabled : Bool) (fileIdx : ℕ)
  | keepActiveForSeeding (generation : ℕ)
  | pauseIfDue (now : ℕ)
  | retryPause (now generation : ℕ)
  | finishPause (generation : ℕ) (zeros : List ℤ) (clearSelection : Bool)
  | scheduleIdle (now : ℕ)
  | pieceVerified (piece : ℤ)
  | replaceWindow (order : IterationOrder) (fileIdx generation streamId : ℕ)
      (assignments : List LibtorrentPiecePriority)
  /-- The end of HLS, a pause or a resume sets the phase. -/
  | setPhase (phase : LibtorrentNetworkPhase)
  | clearDeadline
  | announceMetadata
  | acknowledge (priorities : List ℤ)
  | selectFirstPiece (piece : Option ℤ)

/-- The state of the entry once it is updated. -/
def EntryUpdate.apply (st : TorrentPlaybackState) : EntryUpdate → TorrentPlaybackState
  | .refreshHls now seedingEnabled fileIdx complete =>
      (st.refreshHls now seedingEnabled fileIdx complete).1
  | .endHls seedingEnabled fileIdx => (st.endHls seedingEnabled fileIdx).1
  | .keepActiveForSeeding generation => st.keepActiveForSeeding generation
  | .pauseIfDue now => (st.pauseIfDue now).1
  | .retryPause now generation => st.retryPause now generation
  | .finishPause generation zeros clearSelection => st.finishPause generation zeros clearSelection
  | .scheduleIdle now => st.scheduleIdleIfNeeded now
  | .pieceVerified piece => st.pieceVerified piece
  | .replaceWindow order fileIdx generation streamId assignments =>
      if st.IsCurrent fileIdx generation then
        { st with priorityWindows := (st.priorityWindows.replace order streamId assignments).1 }
      else st
  | .setPhase phase => { st with phase := phase }
  | .clearDeadline => { st with idleDeadline := none }
  | .announceMetadata => { st with metadataAnnounced := true }
  | .acknowledge priorities => { st with acknowledgedPriorities := some priorities }
  | .selectFirstPiece piece => { st with selectedFirstPiece := piece }

/-- The entries, by number, and everything under way. -/
structure Registry where
  entries : String → Option ℕ
  states : List TorrentPlaybackState
  /-- The requests that have looked up an entry. -/
  holders : List (String × ℕ)
  permits : List IssuedPermit
  metadataPermits : List IssuedMetadataPermit
  queue : List ReleaseCommand
  /-- The command being handled, with the entry found for it. -/
  worker : Option (ReleaseCommand × ℕ)

/-- What the registry and its entries are asked for. -/
inductive RegistryStep
  | registerTorrent (infoHash : String)
  | removeTorrent (infoHash : String)
  /-- A request looks up its entry. -/
  | lookUp (infoHash : String)
  | startPlayback (infoHash : String) (id now : ℕ) (seedingEnabled : Bool)
      (start : LibtorrentPlaybackStart) (complete : Bool)
  | acquireMetadata (infoHash : String) (id : ℕ) (hasMetadata : Bool)
  | update (id : ℕ) (change : EntryUpdate)
  | dropPermit (permit : IssuedPermit)
  | dropMetadata (permit : IssuedMetadataPermit)
  /-- The worker takes a command and looks up the entry. -/
  | receive (command : ReleaseCommand)
  /-- The worker updates the entry it has found. -/
  | release (command : ReleaseCommand) (id now : ℕ) (order : IterationOrder)

namespace Registry

variable (s : Registry)

/-- The state of the entry `id`. -/
def state (id : ℕ) : TorrentPlaybackState := (s.states[id]?).getD .new

/-- The registry once the entry of the torrent has been looked up. -/
def lookedUp (infoHash : String) : Registry :=
  if s.entries infoHash = none then
    { s with
      entries := Function.update s.entries infoHash (some s.states.length)
      states := s.states ++ [.new] }
  else s

/-- The entry that is found, or made. -/
def entry (infoHash : String) : ℕ := (s.entries infoHash).getD s.states.length

/-- The entry `id` gets the state `st`. -/
def setState (id : ℕ) (st : TorrentPlaybackState) : Registry :=
  { s with states := s.states.set id st }

/-- Nothing is registered. -/
def empty : Registry := ⟨fun _ => none, [], [], [], [], [], none⟩

end Registry

/-- When a step can happen. -/
def RegistryStep.guard (s : Registry) : RegistryStep → Prop
  | .registerTorrent _ | .removeTorrent _ | .lookUp _ => True
  | .startPlayback infoHash id _ _ _ _ | .acquireMetadata infoHash id _ =>
      (infoHash, id) ∈ s.holders
  | .update id _ => id < s.states.length
  | .dropPermit permit => permit ∈ s.permits
  | .dropMetadata permit => permit ∈ s.metadataPermits
  | .receive command => s.worker = none ∧ s.queue = command :: s.queue.tail
  | .release command id _ _ => s.worker = some (command, id)

/-- What a step does. -/
def RegistryStep.effect (s : Registry) : RegistryStep → Registry
  | .registerTorrent infoHash => s.lookedUp infoHash
  | .removeTorrent infoHash => { s with entries := Function.update s.entries infoHash none }
  | .lookUp infoHash =>
      { s.lookedUp infoHash with holders := s.holders ++ [(infoHash, s.entry infoHash)] }
  | .startPlayback infoHash id now seedingEnabled start complete =>
      match (s.state id).startPlayback now seedingEnabled start complete with
      | .error _ => { s with holders := s.holders.erase (infoHash, id) }
      | .ok (st, selection) =>
          { s.setState id st with
            holders := s.holders.erase (infoHash, id)
            permits := s.permits ++
              [{ infoHash := infoHash
                 issuer := id
                 fileIdx := start.fileIdx
                 generation := selection.generation
                 streamId := start.streamId
                 foreground := start.intent.isForeground }] }
  | .acquireMetadata infoHash id hasMetadata =>
      { s.setState id ((s.state id).acquireMetadata hasMetadata) with
        holders := s.holders.erase (infoHash, id)
        metadataPermits := s.metadataPermits ++ [⟨infoHash, id, (s.state id).generation⟩] }
  | .update id change => s.setState id (change.apply (s.state id))
  | .dropPermit permit =>
      { s with
        permits := s.permits.erase permit, queue := s.queue ++ [.releasePlayback permit] }
  | .dropMetadata permit =>
      { s with
        metadataPermits := s.metadataPermits.erase permit
        queue := s.queue ++ [.releaseMetadata permit] }
  | .receive command =>
      { s.lookedUp command.infoHash with
        queue := s.queue.tail, worker := some (command, s.entry command.infoHash) }
  | .release command id now order =>
      { s.setState id (command.apply order now (s.state id)) with worker := none }

/-- The registry as a transition system. -/
def registry : GuardedSystem Registry RegistryStep where
  guard := RegistryStep.guard
  effect := RegistryStep.effect

/-- Who holds an entry is compared by info hash and number. -/
instance lawfulHolder : LawfulBEq (String × ℕ) := inferInstance

instance (s : Registry) (a : RegistryStep) : Decidable (registry.guard s a) := by
  cases a <;> (dsimp only [registry, RegistryStep.guard]; infer_instance)

namespace Registry

/-! ### What is accounted for -/

section Accounts

variable (s : Registry)

/-- The commands that have not been handled. -/
def commands : List ReleaseCommand := (s.worker.map Prod.fst).toList ++ s.queue

/-- The permits whose release has not been handled. -/
def unreleased : Multiset IssuedPermit :=
  ↑s.permits + ↑(s.commands.filterMap ReleaseCommand.playback?)

/-- The metadata permits that are held, or whose command waits. -/
def unreleasedMetadata : Multiset IssuedMetadataPermit :=
  ↑s.metadataPermits + ↑(s.commands.filterMap ReleaseCommand.metadata?)

/-- Those the entry has issued. -/
def issuedBy (id : ℕ) : Multiset IssuedPermit := s.unreleased.filter fun p => p.issuer = id

/-- Those of them that the entry `id` issued. -/
def metadataIssuedBy (id : ℕ) : Multiset IssuedMetadataPermit :=
  s.unreleasedMetadata.filter fun p => p.issuer = id

/-- The entry counts the permits it has issued, by generation. -/
structure Accounted (id : ℕ) : Prop where
  direct : (s.state id).directPermits = (s.issuedBy id).map IssuedPermit.generation
  foreground : (s.state id).foregroundPermits =
    ((s.issuedBy id).filter fun p => p.foreground = true).map IssuedPermit.generation
  metadata : (s.state id).metadataPermits = (s.metadataIssuedBy id).card

/-- The command finds nothing to take in this state: no permit of its generation, and
no window of its stream if the generation is the current one. -/
def NothingToTake (st : TorrentPlaybackState) : ReleaseCommand → Prop
  | .releasePlayback p =>
      p.generation ∉ st.directPermits ∧ p.generation ∉ st.foregroundPermits ∧
        (st.generation = p.generation → st.priorityWindows.streams.lookup p.streamId = none)
  | .releaseMetadata _ => st.metadataPermits = 0

/-- **The condition.**  A release finds its torrent registered, and is handled on the
entry that issued the permit or on one where there is nothing to take. -/
def ReleasesFit : RegistryStep → Prop
  | .receive command => s.entries command.infoHash ≠ none
  | .release command id _ _ => command.issuer = id ∨ NothingToTake (s.state id) command
  | _ => True

end Accounts

instance (st : TorrentPlaybackState) (command : ReleaseCommand) :
    Decidable (NothingToTake st command) := by
  cases command <;> (dsimp only [NothingToTake]; infer_instance)

instance (s : Registry) (a : RegistryStep) : Decidable (s.ReleasesFit a) := by
  unfold ReleasesFit
  split <;> infer_instance

/-! ### Entries -/

section Entries

variable {s t : Registry}

theorem state_setState_self {id : ℕ} (h : id < s.states.length) (st : TorrentPlaybackState) :
    (s.setState id st).state id = st := by
  simp [state, setState, h]

theorem state_setState_ne {id id' : ℕ} (h : id ≠ id') (st : TorrentPlaybackState) :
    (s.setState id st).state id' = s.state id' := by
  simp [state, setState, List.getElem?_set_ne h]

/-- The entry has been made, and is registered under no other hash than this. -/
def Belongs (s : Registry) (infoHash : String) (id : ℕ) : Prop :=
  id < s.states.length ∧ ∀ infoHash', s.entries infoHash' = some id → infoHash' = infoHash

/-- Numbers are not used twice. -/
theorem Belongs.mono {infoHash : String} {id : ℕ} (h : s.Belongs infoHash id)
    (hlen : s.states.length ≤ t.states.length)
    (hentries : ∀ infoHash' id', t.entries infoHash' = some id' →
      s.entries infoHash' = some id' ∨ s.states.length ≤ id') : t.Belongs infoHash id := by
  refine ⟨lt_of_lt_of_le h.1 hlen, fun infoHash' he => ?_⟩
  rcases hentries infoHash' id he with hold | hnew
  · exact h.2 infoHash' hold
  · exact absurd h.1 (by omega)

theorem length_lookedUp (infoHash : String) :
    s.states.length ≤ (s.lookedUp infoHash).states.length := by
  unfold lookedUp
  split
  · simp
  · exact le_rfl

/-- Looking up an entry registers at most this torrent, with a new number. -/
theorem entries_lookedUp {infoHash infoHash' : String} {id : ℕ}
    (h : (s.lookedUp infoHash).entries infoHash' = some id) :
    s.entries infoHash' = some id ∨
      infoHash' = infoHash ∧ id = s.states.length ∧
        (s.lookedUp infoHash).states = s.states ++ [.new] := by
  unfold lookedUp at h ⊢
  split at h
  · next hnone =>
    rw [if_pos hnone]
    dsimp only at h
    by_cases heq : infoHash' = infoHash
    · subst heq
      rw [Function.update_self, Option.some.injEq] at h
      exact Or.inr ⟨rfl, h.symm, rfl⟩
    · rw [Function.update_of_ne heq] at h
      exact Or.inl h
  · exact Or.inl h

theorem state_lookedUp {infoHash : String} {id : ℕ} (h : id < s.states.length) :
    (s.lookedUp infoHash).state id = s.state id := by
  unfold lookedUp
  split
  · simp [state, List.getElem?_append_left h]
  · rfl

/-- The entry that is found is registered afterwards. -/
theorem entries_entry (infoHash : String) :
    (s.lookedUp infoHash).entries infoHash = some (s.entry infoHash) := by
  unfold lookedUp entry
  split
  · next hnone => simp [hnone]
  · next hsome =>
    cases h : s.entries infoHash with
    | none => exact absurd h hsome
    | some id => rfl

end Entries

/-! ### The invariant -/

/-- Whatever is under way belongs to the torrent it names, and registered entries
count their permits. -/
structure RegistryInvariant (s : Registry) : Prop where
  entries : ∀ infoHash id, s.entries infoHash = some id → s.Belongs infoHash id
  holders : ∀ x ∈ s.holders, s.Belongs x.1 x.2
  permits : ∀ p ∈ s.unreleased, s.Belongs p.infoHash p.issuer
  metadata : ∀ p ∈ s.unreleasedMetadata, s.Belongs p.infoHash p.issuer
  /-- A command that has found another entry than its issuer has an issuer that is
  registered no more. -/
  worker : ∀ c id, s.worker = some (c, id) → s.Belongs c.infoHash id ∧
    (c.issuer ≠ id → ∀ infoHash, s.entries infoHash ≠ some c.issuer)
  accounted : ∀ infoHash id, s.entries infoHash = some id → s.Accounted id

section Invariant

variable {s t : Registry}

theorem RegistryInvariant.command (h : s.RegistryInvariant) {c : ReleaseCommand}
    (hc : c ∈ s.commands) : s.Belongs c.infoHash c.issuer := by
  cases c with
  | releasePlayback p =>
    refine h.permits p ?_
    rw [unreleased, Multiset.mem_add, Multiset.mem_coe, Multiset.mem_coe]
    exact Or.inr (List.mem_filterMap.mpr ⟨_, hc, rfl⟩)
  | releaseMetadata p =>
    refine h.metadata p ?_
    rw [unreleasedMetadata, Multiset.mem_add, Multiset.mem_coe, Multiset.mem_coe]
    exact Or.inr (List.mem_filterMap.mpr ⟨_, hc, rfl⟩)

/-- What a step has to establish. -/
theorem RegistryInvariant.next (h : s.RegistryInvariant)
    (hlen : s.states.length ≤ t.states.length)
    (hentries : ∀ infoHash id, t.entries infoHash = some id →
      s.entries infoHash = some id ∨ s.states.length ≤ id ∧ t.Belongs infoHash id)
    (hholders : ∀ x ∈ t.holders, x ∈ s.holders ∨ t.Belongs x.1 x.2)
    (hpermits : ∀ p ∈ t.unreleased, p ∈ s.unreleased ∨ t.Belongs p.infoHash p.issuer)
    (hmetadata : ∀ p ∈ t.unreleasedMetadata,
      p ∈ s.unreleasedMetadata ∨ t.Belongs p.infoHash p.issuer)
    (hworker : ∀ c id, t.worker = some (c, id) → s.worker = some (c, id) ∨
      t.Belongs c.infoHash id ∧ (c.issuer ≠ id → ∀ infoHash, t.entries infoHash ≠ some c.issuer))
    (haccounted : ∀ infoHash id, t.entries infoHash = some id → t.Accounted id) :
    t.RegistryInvariant := by
  have hmono : ∀ {infoHash id}, s.Belongs infoHash id → t.Belongs infoHash id := fun hb =>
    hb.mono hlen fun infoHash' id' he => (hentries infoHash' id' he).imp_right And.left
  constructor
  · intro infoHash id he
    rcases hentries infoHash id he with hold | hnew
    · exact hmono (h.entries infoHash id hold)
    · exact hnew.2
  · exact fun x hx => (hholders x hx).elim (fun hold => hmono (h.holders x hold)) id
  · exact fun p hp => (hpermits p hp).elim (fun hold => hmono (h.permits p hold)) id
  · exact fun p hp => (hmetadata p hp).elim (fun hold => hmono (h.metadata p hold)) id
  · intro c id hw
    rcases hworker c id hw with hold | hnew
    · obtain ⟨hbelongs, hgone⟩ := h.worker c id hold
      refine ⟨hmono hbelongs, fun hne infoHash he => ?_⟩
      have hissuer := h.command (c := c) (by simp [commands, hold])
      rcases hentries infoHash c.issuer he with hreg | hnew
      · exact hgone hne infoHash hreg
      · have hlt := hissuer.1
        omega
    · exact hnew
  · exact haccounted

/-- An entry whose state keeps its permits, while no permit of its is issued or
released. -/
theorem Accounted.congr {id : ℕ} (h : s.Accounted id)
    (hd : (t.state id).directPermits = (s.state id).directPermits)
    (hf : (t.state id).foregroundPermits = (s.state id).foregroundPermits)
    (hm : (t.state id).metadataPermits = (s.state id).metadataPermits)
    (hissued : t.issuedBy id = s.issuedBy id)
    (hissuedMetadata : t.metadataIssuedBy id = s.metadataIssuedBy id) : t.Accounted id := by
  constructor
  · rw [hd, h.direct, hissued]
  · rw [hf, h.foreground, hissued]
  · rw [hm, h.metadata, hissuedMetadata]

/-- A step after which the same permits are under way. -/
theorem RegistryInvariant.same (h : s.RegistryInvariant)
    (hlen : s.states.length ≤ t.states.length)
    (hentries : ∀ infoHash id, t.entries infoHash = some id →
      s.entries infoHash = some id ∨ s.states.length ≤ id ∧ t.Belongs infoHash id)
    (hholders : ∀ x ∈ t.holders, x ∈ s.holders ∨ t.Belongs x.1 x.2)
    (hpermits : t.unreleased = s.unreleased)
    (hmetadata : t.unreleasedMetadata = s.unreleasedMetadata)
    (hworker : ∀ c id, t.worker = some (c, id) → s.worker = some (c, id) ∨
      t.Belongs c.infoHash id ∧ (c.issuer ≠ id → ∀ infoHash, t.entries infoHash ≠ some c.issuer))
    (haccounted : ∀ infoHash id, t.entries infoHash = some id → t.Accounted id) :
    t.RegistryInvariant :=
  h.next hlen hentries hholders (fun _ hp => Or.inl (hpermits ▸ hp))
    (fun _ hp => Or.inl (hmetadata ▸ hp)) hworker haccounted

/-- Nothing has been issued by an entry that has not been made. -/
theorem RegistryInvariant.issuedBy_eq_zero (h : s.RegistryInvariant) {id : ℕ}
    (hid : s.states.length ≤ id) : s.issuedBy id = 0 ∧ s.metadataIssuedBy id = 0 := by
  constructor
  · refine Multiset.filter_eq_nil.mpr fun q hq _ => ?_
    have hlt := (h.permits q hq).1
    omega
  · refine Multiset.filter_eq_nil.mpr fun q hq _ => ?_
    have hlt := (h.metadata q hq).1
    omega

/-- Looking up an entry, by whomever. -/
theorem RegistryInvariant.lookedUp (h : s.RegistryInvariant) (infoHash : String)
    (hlen : t.states = (s.lookedUp infoHash).states)
    (hentries : t.entries = (s.lookedUp infoHash).entries)
    (hholders : ∀ x ∈ t.holders, x ∈ s.holders ∨ x = (infoHash, s.entry infoHash))
    (hpermits : t.unreleased = s.unreleased)
    (hmetadata : t.unreleasedMetadata = s.unreleasedMetadata) (hworker : t.worker = s.worker) :
    t.RegistryInvariant := by
  have hstate : ∀ id, t.state id = (s.lookedUp infoHash).state id := fun id => by
    rw [state, hlen, ← state]
  have hle : s.states.length ≤ t.states.length := by
    rw [hlen]
    exact length_lookedUp infoHash
  -- a new entry has a new number, and no other info hash has it
  have hnew : ∀ infoHash' id, t.entries infoHash' = some id →
      s.entries infoHash' = some id ∨ s.states.length ≤ id ∧ t.Belongs infoHash' id := by
    intro infoHash' id he
    rw [hentries] at he
    rcases entries_lookedUp he with hold | ⟨rfl, rfl, hstates⟩
    · exact Or.inl hold
    · refine Or.inr ⟨le_rfl, by rw [hlen, hstates]; simp, fun other ho => ?_⟩
      rw [hentries] at ho
      rcases entries_lookedUp ho with hold | ⟨heq, -, -⟩
      · have hlt := (h.entries other _ hold).1
        omega
      · exact heq
  refine h.same hle hnew (fun x hx => ?_) hpermits hmetadata
    (fun c id hw => Or.inl (hworker ▸ hw)) (fun infoHash' id he => ?_)
  · rcases hholders x hx with hold | rfl
    · exact Or.inl hold
    · have hentry : t.entries infoHash = some (s.entry infoHash) := by
        rw [hentries]
        exact entries_entry infoHash
      right
      rcases hnew _ _ hentry with hold | hnew
      · refine (h.entries _ _ hold).mono hle fun infoHash' id' he => ?_
        exact (hnew infoHash' id' he).imp_right And.left
      · exact hnew.2
  · rw [hentries] at he
    rcases entries_lookedUp he with hold | ⟨rfl, rfl, hstates⟩
    · have hlt := (h.entries infoHash' id hold).1
      refine (h.accounted infoHash' id hold).congr ?_ ?_ ?_ ?_ ?_
      · rw [hstate, state_lookedUp hlt]
      · rw [hstate, state_lookedUp hlt]
      · rw [hstate, state_lookedUp hlt]
      · rw [issuedBy, hpermits, ← issuedBy]
      · rw [metadataIssuedBy, hmetadata, ← metadataIssuedBy]
    -- a number that was not given before has issued nothing, and its state counts nothing
    · obtain ⟨hp, hm⟩ := h.issuedBy_eq_zero (le_refl s.states.length)
      have hfresh : t.state s.states.length = .new := by
        rw [hstate, state, hstates]
        simp
      constructor
      · rw [hfresh, issuedBy, hpermits, ← issuedBy, hp]
        rfl
      · rw [hfresh, issuedBy, hpermits, ← issuedBy, hp]
        rfl
      · rw [hfresh, metadataIssuedBy, hmetadata, ← metadataIssuedBy, hm]
        rfl

end Invariant

/-! ### Every step keeps the invariant -/

section Steps

variable {s : Registry}

/-- The updates that are not about permits keep the tables of permits. -/
theorem apply_keepsPermits (u : EntryUpdate) (st : TorrentPlaybackState) :
    (u.apply st).directPermits = st.directPermits ∧
      (u.apply st).foregroundPermits = st.foregroundPermits ∧
      (u.apply st).metadataPermits = st.metadataPermits := by
  cases u with
  | refreshHls now seedingEnabled fileIdx complete =>
    dsimp only [EntryUpdate.apply, TorrentPlaybackState.refreshHls]
    rcases st.select_spec now fileIdx (TorrentPlaybackState.hlsPriority complete) false true
      (!complete || seedingEnabled) false with ⟨-, heq⟩ | ⟨-, heq⟩ <;> rw [heq] <;>
      exact ⟨rfl, rfl, rfl⟩
  | endHls seedingEnabled fileIdx =>
    dsimp only [EntryUpdate.apply, TorrentPlaybackState.endHls]
    split <;> exact ⟨rfl, rfl, rfl⟩
  | keepActiveForSeeding generation =>
    rcases st.keepActiveForSeeding_spec generation with heq | ⟨-, -, heq⟩ <;>
      rw [EntryUpdate.apply, heq] <;> exact ⟨rfl, rfl, rfl⟩
  | pauseIfDue now =>
    rcases st.pauseIfDue_spec now with heq | heq | ⟨-, -, hls, heq⟩ | ⟨-, heq⟩ <;>
      rw [EntryUpdate.apply, heq] <;> exact ⟨rfl, rfl, rfl⟩
  | retryPause now generation =>
    dsimp only [EntryUpdate.apply, TorrentPlaybackState.retryPause]
    split <;> exact ⟨rfl, rfl, rfl⟩
  | finishPause generation zeros clearSelection =>
    dsimp only [EntryUpdate.apply, TorrentPlaybackState.finishPause]
    split <;> exact ⟨rfl, rfl, rfl⟩
  | scheduleIdle now =>
    obtain ⟨deadline, heq, -⟩ := st.scheduleIdleIfNeeded_spec now
    rw [EntryUpdate.apply, heq]
    exact ⟨rfl, rfl, rfl⟩
  | replaceWindow order fileIdx generation streamId assignments =>
    dsimp only [EntryUpdate.apply]
    split <;> exact ⟨rfl, rfl, rfl⟩
  | _ => exact ⟨rfl, rfl, rfl⟩

/-- A request that has started playback holds a permit the entry has counted. -/
theorem registryInvariant_startPlayback (h : s.RegistryInvariant) {infoHash : String} {id now : ℕ}
    {seedingEnabled complete : Bool} {start : LibtorrentPlaybackStart}
    (hg : (infoHash, id) ∈ s.holders) :
    (RegistryStep.effect s
      (.startPlayback infoHash id now seedingEnabled start complete)).RegistryInvariant := by
  have hbelongs := h.holders _ hg
  dsimp only [RegistryStep.effect]
  split
  · exact h.same le_rfl (fun _ _ => Or.inl) (fun x hx => Or.inl (List.mem_of_mem_erase hx)) rfl rfl
      (fun _ _ => Or.inl) fun infoHash' id' he => (h.accounted infoHash' id' he).congr rfl rfl rfl
        rfl rfl
  · next st selection hgranted =>
    obtain ⟨hdirect, hforeground, hmeta⟩ := TorrentPlaybackState.startPlayback_permits _ _ hgranted
    set p : IssuedPermit :=
      { infoHash := infoHash
        issuer := id
        fileIdx := start.fileIdx
        generation := selection.generation
        streamId := start.streamId
        foreground := start.intent.isForeground } with hp
    set t : Registry :=
      { s.setState id st with
        holders := s.holders.erase (infoHash, id), permits := s.permits ++ [p] } with ht
    -- the permit is one more that has not been released, issued by the entry itself
    have hunreleased : t.unreleased = p ::ₘ s.unreleased := by
      simp only [unreleased, commands, ht, setState]
      rw [← Multiset.coe_add, Multiset.coe_singleton, add_right_comm, add_comm,
        Multiset.singleton_add]
    have hself : t.state id = st := state_setState_self hbelongs.1 st
    have hother : ∀ id', id ≠ id' → t.state id' = s.state id' := fun id' hne =>
      state_setState_ne hne st
    have hlen : s.states.length ≤ t.states.length := by simp [ht, setState]
    refine h.next hlen (fun _ _ => Or.inl) (fun x hx => Or.inl (List.mem_of_mem_erase hx))
      (fun q hq => ?_) (fun q hq => Or.inl hq) (fun _ _ => Or.inl) fun infoHash' id' he => ?_
    · rw [hunreleased, Multiset.mem_cons] at hq
      rcases hq with rfl | hq
      · exact Or.inr (hbelongs.mono hlen fun _ _ => Or.inl)
      · exact Or.inl hq
    · have hacc := h.accounted infoHash' id' he
      by_cases hid : id = id'
      · subst hid
        have hissued : t.issuedBy id = p ::ₘ s.issuedBy id := by
          rw [issuedBy, hunreleased, Multiset.filter_cons_of_pos _ (by rw [hp]), ← issuedBy]
        constructor
        · rw [hself, hdirect, hacc.direct, hissued, Multiset.map_cons]
        · rw [hself, hforeground, hacc.foreground, hissued, Multiset.filter_cons]
          cases hfg : start.intent.isForeground <;> simp [hp, hfg]
        · rw [hself, hmeta]
          exact hacc.metadata
      · refine hacc.congr ?_ ?_ ?_ ?_ rfl
        · rw [hother id' hid]
        · rw [hother id' hid]
        · rw [hother id' hid]
        · rw [issuedBy, hunreleased, Multiset.filter_cons_of_neg _ (by rw [hp]; exact hid),
            ← issuedBy]

theorem registryInvariant_acquireMetadata (h : s.RegistryInvariant) {infoHash : String} {id : ℕ}
    {hasMetadata : Bool} (hg : (infoHash, id) ∈ s.holders) :
    (RegistryStep.effect s (.acquireMetadata infoHash id hasMetadata)).RegistryInvariant := by
  have hbelongs := h.holders _ hg
  dsimp only [RegistryStep.effect]
  set p : IssuedMetadataPermit := ⟨infoHash, id, (s.state id).generation⟩ with hp
  set t : Registry :=
    { s.setState id ((s.state id).acquireMetadata hasMetadata) with
      holders := s.holders.erase (infoHash, id)
      metadataPermits := s.metadataPermits ++ [p] } with ht
  have hunreleased : t.unreleasedMetadata = p ::ₘ s.unreleasedMetadata := by
    simp only [unreleasedMetadata, commands, ht, setState]
    rw [← Multiset.coe_add, Multiset.coe_singleton, add_right_comm, add_comm,
      Multiset.singleton_add]
  have hself : t.state id = (s.state id).acquireMetadata hasMetadata :=
    state_setState_self hbelongs.1 _
  have hother : ∀ id', id ≠ id' → t.state id' = s.state id' := fun id' hne =>
    state_setState_ne hne _
  have hlen : s.states.length ≤ t.states.length := by simp [ht, setState]
  refine h.next hlen (fun _ _ => Or.inl) (fun x hx => Or.inl (List.mem_of_mem_erase hx))
    (fun q hq => Or.inl hq) (fun q hq => ?_) (fun _ _ => Or.inl) fun infoHash' id' he => ?_
  · rw [hunreleased, Multiset.mem_cons] at hq
    rcases hq with rfl | hq
    · exact Or.inr (hbelongs.mono hlen fun _ _ => Or.inl)
    · exact Or.inl hq
  · have hacc := h.accounted infoHash' id' he
    by_cases hid : id = id'
    · subst hid
      refine ⟨by rw [hself]; exact hacc.direct, by rw [hself]; exact hacc.foreground, ?_⟩
      rw [hself, metadataIssuedBy, hunreleased, Multiset.filter_cons_of_pos _ (by rw [hp]),
        Multiset.card_cons, ← metadataIssuedBy, ← hacc.metadata]
      rfl
    · refine hacc.congr ?_ ?_ ?_ rfl ?_
      · rw [hother id' hid]
      · rw [hother id' hid]
      · rw [hother id' hid]
      · rw [metadataIssuedBy, hunreleased,
          Multiset.filter_cons_of_neg _ (by rw [hp]; exact hid), ← metadataIssuedBy]

/-- A dropped permit is still unreleased. -/
theorem registryInvariant_drop (h : s.RegistryInvariant) {t : Registry}
    (hstates : t.states = s.states) (hentries : t.entries = s.entries)
    (hholders : t.holders = s.holders) (hworker : t.worker = s.worker)
    (hpermits : t.unreleased = s.unreleased)
    (hmetadata : t.unreleasedMetadata = s.unreleasedMetadata) : t.RegistryInvariant := by
  refine h.same (by rw [hstates]) (fun _ _ he => Or.inl (hentries ▸ he))
    (fun _ hx => Or.inl (hholders ▸ hx)) hpermits hmetadata
    (fun _ _ hw => Or.inl (hworker ▸ hw)) fun infoHash id he => ?_
  have hstate : t.state id = s.state id := by rw [state, hstates, ← state]
  refine (h.accounted infoHash id (hentries ▸ he)).congr ?_ ?_ ?_ ?_ ?_
  · rw [hstate]
  · rw [hstate]
  · rw [hstate]
  · rw [issuedBy, hpermits, ← issuedBy]
  · rw [metadataIssuedBy, hmetadata, ← metadataIssuedBy]

/-- The command a permit is dropped with takes its place. -/
theorem unreleased_dropPermit {p : IssuedPermit} (hp : p ∈ s.permits) :
    (RegistryStep.effect s (.dropPermit p)).unreleased = s.unreleased := by
  have hback : (↑(s.permits.erase p) : Multiset IssuedPermit) + {p} = ↑s.permits := by
    rw [add_comm, Multiset.singleton_add, Multiset.cons_coe, Multiset.coe_eq_coe]
    exact (List.perm_cons_erase hp).symm
  simp only [unreleased, commands, RegistryStep.effect, List.filterMap_append, List.filterMap_cons,
    List.filterMap_nil, ReleaseCommand.playback?, ← Multiset.coe_add, Multiset.coe_singleton]
  rw [← add_assoc, ← add_assoc, add_right_comm, add_right_comm _ _ ({p} : Multiset IssuedPermit),
    hback, add_assoc]

theorem unreleasedMetadata_dropMetadata {p : IssuedMetadataPermit} (hp : p ∈ s.metadataPermits) :
    (RegistryStep.effect s (.dropMetadata p)).unreleasedMetadata = s.unreleasedMetadata := by
  have hback : (↑(s.metadataPermits.erase p) : Multiset IssuedMetadataPermit) + {p} =
      ↑s.metadataPermits := by
    rw [add_comm, Multiset.singleton_add, Multiset.cons_coe, Multiset.coe_eq_coe]
    exact (List.perm_cons_erase hp).symm
  simp only [unreleasedMetadata, commands, RegistryStep.effect, List.filterMap_append,
    List.filterMap_cons, List.filterMap_nil, ReleaseCommand.metadata?, ← Multiset.coe_add,
    Multiset.coe_singleton]
  rw [← add_assoc, ← add_assoc, add_right_comm,
    add_right_comm _ _ ({p} : Multiset IssuedMetadataPermit), hback, add_assoc]

/-- What the worker takes back when it has updated the entry. -/
theorem unreleased_release {c : ReleaseCommand} {id : ℕ} (now : ℕ) (order : IterationOrder)
    (hw : s.worker = some (c, id)) :
    let t := RegistryStep.effect s (.release c id now order)
    s.unreleased = ↑c.playback?.toList + t.unreleased ∧
      s.unreleasedMetadata = ↑c.metadata?.toList + t.unreleasedMetadata := by
  cases c with
  | releasePlayback p =>
    simp only [unreleased, unreleasedMetadata, commands, hw, RegistryStep.effect, setState,
      Option.map_some, Option.map_none, Option.toList_some, Option.toList_none, List.nil_append,
      List.singleton_append, List.filterMap_cons, ReleaseCommand.playback?,
      ReleaseCommand.metadata?, Multiset.coe_nil, zero_add, and_true]
    rw [← Multiset.cons_coe, Multiset.add_cons, Multiset.coe_singleton, Multiset.singleton_add]
  | releaseMetadata p =>
    simp only [unreleased, unreleasedMetadata, commands, hw, RegistryStep.effect, setState,
      Option.map_some, Option.map_none, Option.toList_some, Option.toList_none, List.nil_append,
      List.singleton_append, List.filterMap_cons, ReleaseCommand.playback?,
      ReleaseCommand.metadata?, Multiset.coe_nil, zero_add, true_and]
    rw [← Multiset.cons_coe, Multiset.add_cons, Multiset.coe_singleton, Multiset.singleton_add]

/-- The tables of permits once a command has been handled. -/
theorem apply_permits (order : IterationOrder) (now : ℕ) (st : TorrentPlaybackState)
    (c : ReleaseCommand) :
    match c with
    | .releasePlayback p =>
        (c.apply order now st).directPermits = st.directPermits.erase p.generation ∧
          (c.apply order now st).foregroundPermits =
            (if p.foreground then st.foregroundPermits.erase p.generation
            else st.foregroundPermits) ∧
          (c.apply order now st).metadataPermits = st.metadataPermits
    | .releaseMetadata _ =>
        (c.apply order now st).directPermits = st.directPermits ∧
          (c.apply order now st).foregroundPermits = st.foregroundPermits ∧
          (c.apply order now st).metadataPermits = st.metadataPermits - 1 := by
  cases c with
  | releasePlayback p =>
    obtain ⟨deadline, heq, -⟩ :=
      st.releasePlayback_spec now p.generation order p.streamId p.foreground
    simp only [ReleaseCommand.apply, heq]
    exact ⟨rfl, rfl, rfl⟩
  | releaseMetadata p =>
    obtain ⟨deadline, heq, -⟩ := TorrentPlaybackState.scheduleIdleIfNeeded_spec
      { st with metadataPermits := st.metadataPermits - 1 } now
    simp only [ReleaseCommand.apply, TorrentPlaybackState.releaseMetadata, heq]
    exact ⟨trivial, trivial, trivial⟩

/-- A state where there is nothing to take stays as it is, but for the deadline. -/
theorem apply_nothingToTake (order : IterationOrder) (now : ℕ) {st : TorrentPlaybackState}
    {c : ReleaseCommand} (h : NothingToTake st c) :
    (c.apply order now st).directPermits = st.directPermits ∧
      (c.apply order now st).foregroundPermits = st.foregroundPermits ∧
      (c.apply order now st).metadataPermits = st.metadataPermits ∧
      (c.apply order now st).priorityWindows = st.priorityWindows := by
  have htables := apply_permits order now st c
  cases c with
  | releasePlayback p =>
    obtain ⟨hdirect, hforeground, hwindow⟩ := h
    obtain ⟨hd, hf, hm⟩ := htables
    refine ⟨?_, ?_, hm, ?_⟩
    · rw [hd, Multiset.erase_of_notMem hdirect]
    · rw [hf, Multiset.erase_of_notMem hforeground, ite_self]
    · obtain ⟨deadline, heq, -⟩ :=
        st.releasePlayback_spec now p.generation order p.streamId p.foreground
      simp only [ReleaseCommand.apply, heq]
      split
      · next hcur =>
        rw [ActivePriorityWindows.release, hwindow hcur]
      · rfl
  | releaseMetadata p =>
    obtain ⟨hd, hf, hm⟩ := htables
    have hnone : st.metadataPermits = 0 := h
    refine ⟨hd, hf, by rw [hm, hnone], ?_⟩
    obtain ⟨deadline, heq, -⟩ := TorrentPlaybackState.scheduleIdleIfNeeded_spec
      { st with metadataPermits := st.metadataPermits - 1 } now
    simp only [ReleaseCommand.apply, TorrentPlaybackState.releaseMetadata, heq]

/-- The entry that has issued the permit takes it back. -/
theorem accounted_ownRelease {c : ReleaseCommand} {id now : ℕ} {order : IterationOrder}
    (hw : s.worker = some (c, id)) (hlen : id < s.states.length) (hown : c.issuer = id)
    (h : s.Accounted id) : (RegistryStep.effect s (.release c id now order)).Accounted id := by
  set t := RegistryStep.effect s (.release c id now order) with ht
  have hself : t.state id = c.apply order now (s.state id) := state_setState_self hlen _
  obtain ⟨hp, hm⟩ := unreleased_release now order hw
  have htables := apply_permits order now (s.state id) c
  cases c with
  | releasePlayback p =>
    have hown' : p.issuer = id := hown
    obtain ⟨hdirect, hforeground, hmeta⟩ := htables
    have hissued : s.issuedBy id = p ::ₘ t.issuedBy id := by
      rw [issuedBy, hp, ReleaseCommand.playback?, Option.toList_some, Multiset.coe_singleton,
        Multiset.singleton_add]
      exact Multiset.filter_cons_of_pos (p := fun p : IssuedPermit => p.issuer = id) _ hown'
    have hissuedMetadata : s.metadataIssuedBy id = t.metadataIssuedBy id := by
      rw [metadataIssuedBy, hm]
      exact congrArg _ (zero_add _)
    constructor
    · rw [hself, hdirect, h.direct, hissued, Multiset.map_cons, Multiset.erase_cons_head]
    · rw [hself, hforeground, h.foreground, hissued, Multiset.filter_cons]
      cases p.foreground <;> simp
    · rw [hself, hmeta, h.metadata, hissuedMetadata]
  | releaseMetadata p =>
    have hown' : p.issuer = id := hown
    obtain ⟨hdirect, hforeground, hmeta⟩ := htables
    have hissued : s.issuedBy id = t.issuedBy id := by
      rw [issuedBy, hp]
      exact congrArg _ (zero_add _)
    have hissuedMetadata : s.metadataIssuedBy id = p ::ₘ t.metadataIssuedBy id := by
      rw [metadataIssuedBy, hm, ReleaseCommand.metadata?, Option.toList_some,
        Multiset.coe_singleton, Multiset.singleton_add]
      exact Multiset.filter_cons_of_pos (p := fun p : IssuedMetadataPermit => p.issuer = id) _ hown'
    constructor
    · rw [hself, hdirect, h.direct, hissued]
    · rw [hself, hforeground, h.foreground, hissued]
    · rw [hself, hmeta, h.metadata, hissuedMetadata, Multiset.card_cons]
      rfl

/-- The permits of another entry are not affected by a release. -/
theorem issuedBy_release {c : ReleaseCommand} {id id' : ℕ} (now : ℕ) (order : IterationOrder)
    (hw : s.worker = some (c, id)) (hne : c.issuer ≠ id') :
    (RegistryStep.effect s (.release c id now order)).issuedBy id' = s.issuedBy id' ∧
      (RegistryStep.effect s (.release c id now order)).metadataIssuedBy id' =
        s.metadataIssuedBy id' := by
  obtain ⟨hp, hm⟩ := unreleased_release now order hw
  rw [issuedBy, issuedBy, metadataIssuedBy, metadataIssuedBy, hp, hm, Multiset.filter_add,
    Multiset.filter_add]
  cases c with
  | releasePlayback p =>
    have hne' : p.issuer ≠ id' := hne
    simp [ReleaseCommand.playback?, ReleaseCommand.metadata?, Multiset.filter_singleton, hne']
  | releaseMetadata p =>
    have hne' : p.issuer ≠ id' := hne
    simp [ReleaseCommand.playback?, ReleaseCommand.metadata?, Multiset.filter_singleton, hne']

theorem registryInvariant_release (h : s.RegistryInvariant) {c : ReleaseCommand} {id now : ℕ}
    {order : IterationOrder} (hw : s.worker = some (c, id))
    (hc : c.issuer = id ∨ NothingToTake (s.state id) c) :
    (RegistryStep.effect s (.release c id now order)).RegistryInvariant := by
  obtain ⟨hbelongs, hgone⟩ := h.worker c id hw
  obtain ⟨hp, hm⟩ := unreleased_release now order hw
  refine h.next (by simp [RegistryStep.effect, setState]) (fun _ _ => Or.inl) (fun _ => Or.inl)
    (fun q hq => Or.inl ?_) (fun q hq => Or.inl ?_) (by rintro _ _ ⟨⟩) fun infoHash id' he => ?_
  · rw [hp]
    exact Multiset.mem_add.mpr (Or.inr hq)
  · rw [hm]
    exact Multiset.mem_add.mpr (Or.inr hq)
  · have hacc := h.accounted infoHash id' he
    by_cases hown : c.issuer = id'
    · -- the issuer is registered, so it is the entry the command has found
      by_cases hid : c.issuer = id
      · obtain rfl : id = id' := hid.symm.trans hown
        exact accounted_ownRelease hw hbelongs.1 hid hacc
      · exact absurd (hown ▸ he) (hgone hid infoHash)
    · obtain ⟨hissued, hissuedMetadata⟩ := issuedBy_release now order hw hown
      by_cases hid : id = id'
      · subst hid
        obtain ⟨hd, hf, hmeta, -⟩ :=
          apply_nothingToTake order now (hc.resolve_left hown)
        have hself : (RegistryStep.effect s (.release c id now order)).state id =
          c.apply order now (s.state id) := state_setState_self hbelongs.1 _
        refine hacc.congr ?_ ?_ ?_ hissued hissuedMetadata
        · rw [hself, hd]
        · rw [hself, hf]
        · rw [hself, hmeta]
      · have hother : (RegistryStep.effect s (.release c id now order)).state id' = s.state id' :=
          state_setState_ne hid _
        refine hacc.congr ?_ ?_ ?_ hissued hissuedMetadata
        · rw [hother]
        · rw [hother]
        · rw [hother]

/-- **Every step that meets the condition keeps the invariant.** -/
theorem registryInvariant_step {a : RegistryStep} (h : s.RegistryInvariant)
    (hg : registry.guard s a) (hc : s.ReleasesFit a) :
    (registry.effect s a).RegistryInvariant := by
  cases a with
  | registerTorrent infoHash =>
    have hlook : (s.lookedUp infoHash).holders = s.holders ∧
        (s.lookedUp infoHash).unreleased = s.unreleased ∧
        (s.lookedUp infoHash).unreleasedMetadata = s.unreleasedMetadata ∧
        (s.lookedUp infoHash).worker = s.worker := by
      unfold lookedUp
      split <;> exact ⟨rfl, rfl, rfl, rfl⟩
    exact h.lookedUp infoHash rfl rfl (fun x hx => Or.inl (hlook.1 ▸ hx)) hlook.2.1 hlook.2.2.1
      hlook.2.2.2
  | removeTorrent infoHash =>
    have hsub : ∀ infoHash' id, (registry.effect s (.removeTorrent infoHash)).entries infoHash' =
        some id → s.entries infoHash' = some id := by
      intro infoHash' id he
      dsimp only [registry, RegistryStep.effect] at he
      by_cases heq : infoHash' = infoHash
      · rw [heq, Function.update_self] at he
        cases he
      · rwa [Function.update_of_ne heq] at he
    refine h.same le_rfl (fun _ _ he => Or.inl (hsub _ _ he)) (fun _ => Or.inl) rfl rfl
      (fun _ _ => Or.inl) fun infoHash' id he => ?_
    exact (h.accounted infoHash' id (hsub infoHash' id he)).congr rfl rfl rfl rfl rfl
  | lookUp infoHash =>
    refine h.lookedUp infoHash rfl rfl (fun x hx => ?_) ?_ ?_ ?_
    · simpa [registry, RegistryStep.effect] using hx
    all_goals
      dsimp only [registry, RegistryStep.effect, lookedUp]
      split <;> rfl
  | startPlayback infoHash id now seedingEnabled start complete =>
    exact registryInvariant_startPlayback h hg
  | acquireMetadata infoHash id hasMetadata => exact registryInvariant_acquireMetadata h hg
  | update id change =>
    have hlen : id < s.states.length := hg
    refine h.same (by simp [registry, RegistryStep.effect, setState]) (fun _ _ => Or.inl)
      (fun _ => Or.inl) rfl rfl (fun _ _ => Or.inl) fun infoHash id' he => ?_
    have hacc := h.accounted infoHash id' he
    by_cases hid : id = id'
    · subst hid
      obtain ⟨hd, hf, hm⟩ := apply_keepsPermits change (s.state id)
      have hself : (registry.effect s (.update id change)).state id = change.apply (s.state id) :=
        state_setState_self hlen _
      refine hacc.congr ?_ ?_ ?_ rfl rfl
      · rw [hself, hd]
      · rw [hself, hf]
      · rw [hself, hm]
    · have hother : (registry.effect s (.update id change)).state id' = s.state id' :=
        state_setState_ne hid _
      refine hacc.congr ?_ ?_ ?_ rfl rfl
      · rw [hother]
      · rw [hother]
      · rw [hother]
  | dropPermit permit =>
    refine registryInvariant_drop h rfl rfl rfl rfl (unreleased_dropPermit hg) ?_
    simp [registry, RegistryStep.effect, unreleasedMetadata, commands, List.filterMap_cons,
      ReleaseCommand.metadata?]
  | dropMetadata permit =>
    refine registryInvariant_drop h rfl rfl rfl rfl ?_ (unreleasedMetadata_dropMetadata hg)
    simp [registry, RegistryStep.effect, unreleased, commands, List.filterMap_cons,
      ReleaseCommand.playback?]
  | receive command =>
    obtain ⟨hidle, hqueue⟩ := hg
    cases hentry : s.entries command.infoHash with
    | none => exact absurd hentry hc
    | some id =>
      have hlook : s.lookedUp command.infoHash = s := if_neg hc
      have hfound : s.entry command.infoHash = id := by rw [entry, hentry, Option.getD_some]
      have heffect : registry.effect s (.receive command) =
          { s with queue := s.queue.tail, worker := some (command, id) } := by
        simp [registry, RegistryStep.effect, hlook, hfound]
      have hcommands : ({ s with queue := s.queue.tail, worker := some (command, id) } :
          Registry).commands = s.commands := by
        rw [commands, commands, hidle]
        exact hqueue.symm
      have hissuer := h.command (c := command) (by rw [commands, hqueue]; simp)
      rw [heffect]
      refine h.same le_rfl (fun _ _ => Or.inl) (fun _ => Or.inl) ?_ ?_ ?_ fun infoHash id' he => ?_
      · rw [unreleased, hcommands, unreleased]
      · rw [unreleasedMetadata, hcommands, unreleasedMetadata]
      · rintro c id' ⟨⟩
        refine Or.inr ⟨h.entries _ _ hentry, fun hne infoHash he => hne ?_⟩
        -- were its issuer registered, it would be under the command's own hash
        have heq := hissuer.2 infoHash he
        rw [heq] at he
        exact Option.some.inj (he.symm.trans hentry)
      · refine (h.accounted infoHash id' he).congr rfl rfl rfl ?_ ?_
        · rw [issuedBy, unreleased, hcommands, issuedBy, unreleased]
        · rw [metadataIssuedBy, unreleasedMetadata, hcommands, metadataIssuedBy,
            unreleasedMetadata]
  | release command id now order => exact registryInvariant_release h hg hc

theorem registryInvariant_empty : empty.RegistryInvariant where
  entries := by rintro infoHash id ⟨⟩
  holders := by rintro x ⟨⟩
  permits := by rintro p ⟨⟩
  metadata := by rintro p ⟨⟩
  worker := by rintro c id ⟨⟩
  accounted := by rintro infoHash id ⟨⟩

theorem registryInvariant_of_reach (h : registry.Reach ReleasesFit empty s) :
    s.RegistryInvariant :=
  h.invariant registryInvariant_empty fun _ _ hi hg hc => registryInvariant_step hi hg hc

/-- **Permits are accounted for.**  In every run in which releases find their torrent
registered, and an entry where they are not at home has nothing for them to take,
every registered entry counts, for every generation, exactly the permits it has
issued and not seen released; a release that is not at home takes neither a permit
nor a window; and handling a release registers no torrent. -/
theorem permits_accounted (h : registry.Reach ReleasesFit empty s) :
    (∀ infoHash id, s.entries infoHash = some id →
      (∀ generation,
        (s.state id).directPermits.count generation =
            (s.issuedBy id).countP (fun p => p.generation = generation) ∧
          (s.state id).foregroundPermits.count generation =
            (s.issuedBy id).countP (fun p => p.generation = generation ∧ p.foreground = true)) ∧
        (s.state id).metadataPermits = (s.metadataIssuedBy id).card) ∧
      (∀ command id now order, registry.guard s (.release command id now order) →
        s.ReleasesFit (.release command id now order) → command.issuer ≠ id →
          let t := registry.effect s (.release command id now order)
          (t.state id).directPermits = (s.state id).directPermits ∧
            (t.state id).foregroundPermits = (s.state id).foregroundPermits ∧
            (t.state id).metadataPermits = (s.state id).metadataPermits ∧
            (t.state id).priorityWindows = (s.state id).priorityWindows) ∧
      ∀ command, registry.guard s (.receive command) → s.ReleasesFit (.receive command) →
        (registry.effect s (.receive command)).entries = s.entries := by
  have hinv := registryInvariant_of_reach h
  refine ⟨fun infoHash id he => ?_, fun command id now order hw hc hne => ?_,
    fun command _ hc => ?_⟩
  · obtain ⟨hdirect, hforeground, hmetadata⟩ := hinv.accounted infoHash id he
    refine ⟨fun generation => ⟨?_, ?_⟩, hmetadata⟩
    · rw [hdirect, Multiset.count_map, ← Multiset.countP_eq_card_filter]
      simp only [eq_comm]
    · rw [hforeground, Multiset.count_map, ← Multiset.countP_eq_card_filter,
        Multiset.countP_filter]
      simp only [eq_comm]
  · have hlen := (hinv.worker command id hw).1.1
    dsimp only
    rw [show (registry.effect s (.release command id now order)).state id =
      command.apply order now (s.state id) from state_setState_self hlen _]
    exact apply_nothingToTake order now (hc.resolve_left hne)
  · have hlook : s.lookedUp command.infoHash = s := if_neg hc
    simp [registry, RegistryStep.effect, hlook]

end Steps

/-! ### One torrent, removed and added again -/

/-- A reader of the first file is given a permit by the entry. -/
def startsReading (id : ℕ) : List RegistryStep :=
  [.lookUp "magnet", .startPlayback "magnet" id 0 false ⟨0, 5, 0, .directInitial⟩ false]

/-- The permit the reader gets. -/
def readersPermit (id : ℕ) : IssuedPermit := ⟨"magnet", id, 0, 1, 5, true⟩

/-- The permit is dropped, and its release handled on the entry `found`. -/
def dropsPermit (id found : ℕ) : List RegistryStep :=
  [.dropPermit (readersPermit id), .receive (.releasePlayback (readersPermit id)),
    .release (.releasePlayback (readersPermit id)) found 0 .stored]

/-- A torrent is removed and added again.  The permit of its first reader is released when the new
entry counts none; of the two readers after that one is done. -/
theorem permits_accounted_twice :
    ∃ s, registry.Reach ReleasesFit empty s ∧ s.entries "magnet" = some 1 ∧
      (s.state 1).directPermits.count 1 = 1 ∧
      (s.issuedBy 1).countP (fun p => p.generation = 1) = 1 := by
  obtain ⟨s, hs, hentry, hcount⟩ : ∃ s, registry.Reach ReleasesFit empty s ∧
      (s.entries "magnet" = some 1 ∧ (s.state 1).directPermits.count 1 = 1) :=
    GuardedSystem.exists_reach_of_exec
      ([.registerTorrent "magnet"] ++ startsReading 0 ++
        [.removeTorrent "magnet", .registerTorrent "magnet"] ++ dropsPermit 0 1 ++
        startsReading 1 ++ startsReading 1 ++ dropsPermit 1 1)
      (by decide)
  refine ⟨s, hs, hentry, hcount, ?_⟩
  rw [← (((permits_accounted hs).1 "magnet" 1 hentry).1 1).1, hcount]

/-- The torrent is removed while its reader holds a permit.  When the permit is
released after the torrent has been added again and has another reader, that
reader's permit is taken and its window retired; when it is released at once, the
torrent is registered again. -/
theorem readdedTorrent_losesPermit :
    (∃ s, registry.Reach GuardedSystem.anyStep empty s ∧
      (s.entries "magnet" = some 1 ∧ s.permits = [readersPermit 1] ∧ s.queue = [] ∧
        s.worker = none ∧ (s.state 1).directPermits.count 1 = 0 ∧
        (s.state 1).foregroundPermits.count 1 = 0 ∧
        ((s.state 1).priorityWindows.streams.lookup 5).isNone = true)) ∧
      ∃ s, registry.Reach GuardedSystem.anyStep empty s ∧
        (s.permits = [] ∧ s.holders = [] ∧ s.entries "magnet" = some 1) :=
  ⟨GuardedSystem.exists_reach_of_exec
      ([.registerTorrent "magnet"] ++ startsReading 0 ++
        [.removeTorrent "magnet", .registerTorrent "magnet"] ++ startsReading 1 ++
        [.update 1 (.replaceWindow .stored 0 1 5 [⟨0, 7, none⟩])] ++ dropsPermit 0 1)
      (by decide),
    GuardedSystem.exists_reach_of_exec
      ([.registerTorrent "magnet"] ++ startsReading 0 ++ [.removeTorrent "magnet"] ++
        [.dropPermit (readersPermit 0), .receive (.releasePlayback (readersPermit 0))])
      (by decide)⟩

end Registry

end StreamServer.Playback
