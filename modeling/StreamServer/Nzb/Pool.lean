import StreamServer.Lib.GuardedSystem
import StreamServer.Nzb.Nntp

/-!
# The pool of connections

A session keeps its connections to the news servers in a bounded channel.  A background task
opens them one after another and puts them in; a fetch takes one out, fetches the body of an
article, and puts it back if that went well.  If it did not, or if the caller is dropped in
between, the connection is gone, and nothing opens another: as the session itself holds the
sending end, the channel never closes, and a call that comes later waits for ever.

A reader of a file lets its fetches run as tasks of their own, so they are not dropped with it;
other callers may be.

## Main definitions

* `Connector`, `FetchCall`, `NzbSession` — the states.
* `NzbSession.system` — what can happen.
* `NzbSession.available` — the connections in the pool and those that calls hold.
* `NzbSession.Stalled` — a call waits, and no connection is there.
* `NzbSession.Keeps` — the step loses no connection.

## Main results

* `available_effect` — what a step does to the connections.
* `conserved_iff` — a run keeps all connections, and never stalls, just if each of its steps
  keeps them.
* `room`, `putBack_enabled` — the pool has room for all, so nobody waits to put one back.
* `starved` — what is lost is not replaced.

## References

`server/src/archives/nzb/session.rs`; `server/src/archives/nzb/stream.rs`.
-/

namespace StreamServer.Nzb

/-! ### Opening the connections -/

/-- `NzbServerConfig`, the fields that a session uses. -/
structure NzbServerConfig where
  host : String
  user : Option String
  pass : Option String
  connections : ℕ
  deriving DecidableEq, Repr

/-- The capacity of the channel. -/
def totalConnections (servers : List NzbServerConfig) : ℕ := (servers.map (·.connections)).sum

/-- The connections to open, server by server: whether each has to authenticate. -/
def toOpen (servers : List NzbServerConfig) : List Bool :=
  servers.flatMap fun server =>
    List.replicate server.connections (server.user.isSome && server.pass.isSome)

theorem length_toOpen (servers : List NzbServerConfig) :
    (toOpen servers).length = totalConnections servers := by
  induction servers with
  | nil => rfl
  | cons server servers ih =>
    rw [toOpen, List.flatMap_cons, List.length_append, List.length_replicate, ← toOpen, ih,
      totalConnections, totalConnections, List.map_cons, List.sum_cons]

variable {κ : Type*}

/-- Where the background task is, and what is left to do. -/
inductive Connector (κ : Type*)
  | connecting (left : List Bool)
  | authenticating (client : κ) (left : List Bool)
  | sending (client : κ) (left : List Bool)
  deriving DecidableEq, Repr

/-- The connections that may still come from it. -/
def Connector.outstanding : Connector κ → ℕ
  | .connecting left => left.length
  | .authenticating _ left => left.length + 1
  | .sending _ left => left.length + 1

/-! ### Calls of `fetch_segment` -/

/-- Where a call of `fetch_segment` is. -/
inductive FetchPc (κ : Type*)
  | waiting
  | fetching (client : κ)
  | puttingBack (client : κ) (data : List UInt8)
  | returned (result : Except FetchError (List UInt8))
  /-- The caller has gone. -/
  | dropped

/-- The call has a connection. -/
def FetchPc.holds : FetchPc κ → Bool
  | .fetching _ => true
  | .puttingBack _ _ => true
  | .waiting => false
  | .returned _ => false
  | .dropped => false

/-- The call waits for a connection. -/
def FetchPc.waits : FetchPc κ → Bool
  | .waiting => true
  | _ => false

/-- The call is still running. -/
def FetchPc.runs (pc : FetchPc κ) : Bool := pc.waits || pc.holds

/-- A call of `fetch_segment`. -/
structure FetchCall (κ : Type*) where
  messageId : String
  pc : FetchPc κ

/-! ### Sessions -/

/-- `NzbSession`, with the task that connects and the calls. -/
structure NzbSession (κ : Type*) where
  capacity : ℕ
  pool : List κ
  connector : Connector κ
  calls : List (FetchCall κ)

/-- What can happen to the pool. -/
inductive PoolStep (κ : Type*)
  /-- `connect` returns. -/
  | connected (client : Option κ)
  /-- `authenticate` returns. -/
  | authenticated (ok : Bool)
  /-- The background task puts its connection into the channel. -/
  | supplied
  | call (messageId : String)
  /-- The call takes a connection. -/
  | recv (i : ℕ)
  /-- `fetch_body` returns. -/
  | fetched (i : ℕ) (result : Except FetchError (List UInt8))
  | putBack (i : ℕ)
  /-- The future of the call is dropped. -/
  | drop (i : ℕ)

/-- What a step brings into the pool from outside. -/
def PoolStep.supplies : PoolStep κ → ℕ
  | .supplied => 1
  | _ => 0

namespace NzbSession

/-- `NzbSession::new`. -/
def new (servers : List NzbServerConfig) : NzbSession κ where
  capacity := totalConnections servers
  pool := []
  connector := .connecting (toOpen servers)
  calls := []

variable (s : NzbSession κ)

/-- Where the call `i` is, if there is one. -/
def pcAt (i : ℕ) : Option (FetchPc κ) := (s.calls[i]?).map (·.pc)

/-- The call `i` goes on at `pc`. -/
def setPc (i : ℕ) (pc : FetchPc κ) : NzbSession κ :=
  { s with calls := s.calls.modify i fun call => { call with pc := pc } }

/-- When a step may be taken. -/
def guard : PoolStep κ → Bool
  | .connected _ =>
      match s.connector with
      | .connecting (_ :: _) => true
      | _ => false
  | .authenticated _ =>
      match s.connector with
      | .authenticating _ _ => true
      | _ => false
  | .supplied =>
      match s.connector with
      | .sending _ _ => s.pool.length < s.capacity
      | _ => false
  | .call _ => true
  | .recv i =>
      match s.pcAt i with
      | some .waiting => s.pool ≠ []
      | _ => false
  | .fetched i _ =>
      match s.pcAt i with
      | some (.fetching _) => true
      | _ => false
  | .putBack i =>
      match s.pcAt i with
      | some (.puttingBack _ _) => s.pool.length < s.capacity
      | _ => false
  | .drop i => (s.pcAt i).any (·.runs)

/-- What a step does. -/
def effect : PoolStep κ → NzbSession κ
  | .connected client =>
      match s.connector, client with
      | .connecting (_ :: left), none => { s with connector := .connecting left }
      | .connecting (true :: left), some client =>
          { s with connector := .authenticating client left }
      | .connecting (false :: left), some client => { s with connector := .sending client left }
      | _, _ => s
  | .authenticated ok =>
      match s.connector with
      | .authenticating client left =>
          { s with connector := if ok then .sending client left else .connecting left }
      | _ => s
  | .supplied =>
      match s.connector with
      | .sending client left =>
          { s with pool := s.pool ++ [client], connector := .connecting left }
      | _ => s
  | .call messageId => { s with calls := s.calls ++ [⟨messageId, .waiting⟩] }
  | .recv i =>
      match s.pool with
      | client :: pool => { s with pool := pool }.setPc i (.fetching client)
      | [] => s
  | .fetched i result =>
      match s.pcAt i, result with
      | some (.fetching client), .ok data => s.setPc i (.puttingBack client data)
      -- the client is dropped
      | some (.fetching _), .error error => s.setPc i (.returned (.error error))
      | _, _ => s
  | .putBack i =>
      match s.pcAt i with
      | some (.puttingBack client data) =>
          { s with pool := s.pool ++ [client] }.setPc i (.returned (.ok data))
      | _ => s
  | .drop i => s.setPc i .dropped

/-- The pool as a system of guarded steps. -/
def system : GuardedSystem (NzbSession κ) (PoolStep κ) where
  guard s a := s.guard a = true
  effect s a := s.effect a

/-- The connections that calls hold. -/
def held : ℕ := s.calls.countP (·.pc.holds)

/-- The connections, in the pool or with a call. -/
def available : ℕ := s.pool.length + s.held

/-- A call waits, no connection is in the pool, and no call holds one. -/
def Stalled : Prop := s.pool = [] ∧ s.held = 0 ∧ ∃ call ∈ s.calls, call.pc.waits = true

/-- The step keeps the connections, and nobody waits in vain behind it. -/
def Conserves (a : PoolStep κ) : Prop :=
  s.available ≤ (s.effect a).available ∧ ¬ (s.effect a).Stalled

/-- No fetch fails, and no call is dropped that holds a connection. -/
def Keeps : PoolStep κ → Prop
  | .fetched _ result => result.isOk = true
  | .drop i => (s.pcAt i).any (·.holds) = false
  | _ => True

/-! ### Counting -/

/-- What a call is changed to. -/
theorem countP_modify {α : Type*} (p : α → Bool) (f : α → α) {l : List α} {i : ℕ} {a : α}
    (h : l[i]? = some a) :
    (l.modify i f).countP p + (p a).toNat = l.countP p + (p (f a)).toNat := by
  induction l generalizing i with
  | nil => simp at h
  | cons b l ih =>
    cases i with
    | zero =>
      obtain rfl : b = a := by simpa using h
      rw [List.modify_zero_cons, List.countP_cons, List.countP_cons]
      cases p b <;> cases p (f b) <;> simp
    | succ i =>
      have hlater := ih (by simpa using h)
      rw [List.modify_succ_cons, List.countP_cons, List.countP_cons]
      omega

theorem held_setPc {i : ℕ} {pc : FetchPc κ} (h : s.pcAt i = some pc) (pc' : FetchPc κ) :
    (s.setPc i pc').held + pc.holds.toNat = s.held + pc'.holds.toNat := by
  obtain ⟨call, hcall, rfl⟩ := Option.map_eq_some_iff.mp h
  exact countP_modify (·.pc.holds) (fun call => { call with pc := pc' }) hcall

/-- What a call holds is counted. -/
theorem held_pos {i : ℕ} {pc : FetchPc κ} (h : s.pcAt i = some pc) (hholds : pc.holds = true) :
    0 < s.held := by
  obtain ⟨call, hcall, rfl⟩ := Option.map_eq_some_iff.mp h
  exact List.countP_pos_iff.mpr ⟨call, List.mem_of_getElem? hcall, hholds⟩

theorem not_stalled (h : 0 < s.available) : ¬ s.Stalled := by
  rintro ⟨hpool, hheld, -⟩
  rw [available, hpool, hheld] at h
  exact absurd h (by simp)

/-! ### One step -/

variable {s}

/-- **What a step does to the connections.** -/
theorem available_effect {a : PoolStep κ} (hg : s.guard a = true) :
    (Keeps s a ∧ (s.effect a).available = s.available + a.supplies) ∨
      (¬ Keeps s a ∧ (s.effect a).available + 1 = s.available) := by
  cases a with
  | connected client =>
    refine Or.inl ⟨trivial, ?_⟩
    unfold effect
    dsimp only
    split <;> rfl
  | authenticated ok =>
    refine Or.inl ⟨trivial, ?_⟩
    unfold effect
    dsimp only
    split <;> rfl
  | supplied =>
    refine Or.inl ⟨trivial, ?_⟩
    rw [guard] at hg
    split at hg
    · next client left hconn =>
      simp only [effect, hconn, available, held, PoolStep.supplies, List.length_append,
        List.length_singleton]
      omega
    · exact absurd hg Bool.false_ne_true
  | call messageId =>
    refine Or.inl ⟨trivial, ?_⟩
    simp [effect, available, held, PoolStep.supplies, FetchPc.holds]
  | recv i =>
    refine Or.inl ⟨trivial, ?_⟩
    rw [guard] at hg
    split at hg
    · next hpc =>
      cases hpool : s.pool with
      | nil => simp [hpool] at hg
      | cons client pool =>
        -- what the pool loses the call holds
        have hcount := held_setPc { s with pool := pool } hpc (.fetching client)
        simp only [effect, hpool, available, List.length_cons]
        simp only [FetchPc.holds, Bool.toNat_false, Bool.toNat_true, held, setPc,
          PoolStep.supplies] at hcount ⊢
        omega
    · exact absurd hg Bool.false_ne_true
  | fetched i result =>
    rw [guard] at hg
    split at hg
    · next client hpc =>
      cases result with
      | ok data =>
        have hcount := held_setPc s hpc (.puttingBack client data)
        refine Or.inl ⟨rfl, ?_⟩
        simp only [effect, hpc, available]
        simp only [FetchPc.holds, Bool.toNat_true, setPc, PoolStep.supplies] at hcount ⊢
        omega
      | error error =>
        have hcount := held_setPc s hpc (.returned (.error error))
        refine Or.inr ⟨by simp [Keeps, Except.isOk, Except.toBool], ?_⟩
        simp only [effect, hpc, available]
        simp only [FetchPc.holds, Bool.toNat_true, Bool.toNat_false, setPc] at hcount ⊢
        omega
    · exact absurd hg Bool.false_ne_true
  | putBack i =>
    refine Or.inl ⟨trivial, ?_⟩
    rw [guard] at hg
    split at hg
    · next client data hpc =>
      have hcount := held_setPc { s with pool := s.pool ++ [client] } hpc (.returned (.ok data))
      simp only [effect, hpc, available]
      simp only [FetchPc.holds, Bool.toNat_true, Bool.toNat_false, held, setPc,
        List.length_append, List.length_singleton, PoolStep.supplies] at hcount ⊢
      omega
    · exact absurd hg Bool.false_ne_true
  | drop i =>
    rw [guard, Option.any_eq_true] at hg
    obtain ⟨pc, hpc, -⟩ := hg
    have hcount := held_setPc s hpc .dropped
    have hdropped : (FetchPc.dropped : FetchPc κ).holds = false := rfl
    have hkeeps : Keeps s (.drop i) ↔ pc.holds = false := by simp [Keeps, hpc]
    rw [hdropped, Bool.toNat_false] at hcount
    rw [hkeeps]
    simp only [effect, available, setPc, PoolStep.supplies] at hcount ⊢
    cases hholds : pc.holds with
    | false =>
      rw [hholds, Bool.toNat_false] at hcount
      exact Or.inl ⟨rfl, by omega⟩
    | true =>
      rw [hholds, Bool.toNat_true] at hcount
      exact Or.inr ⟨by simp, by omega⟩

/-- **A step keeps the connections just if none is lost.** -/
theorem conserves_iff {a : PoolStep κ} (hg : s.guard a = true) (h : 0 < s.available) :
    s.Conserves a ↔ s.Keeps a := by
  rcases available_effect hg with ⟨hkeeps, hkept⟩ | ⟨hnot, hlost⟩
  · exact iff_of_true ⟨by omega, not_stalled _ (by omega)⟩ hkeeps
  · refine iff_of_false (fun hcons => ?_) hnot
    have hle := hcons.1
    omega

/-- **The connections are kept, and no call waits in vain, just if no fetch fails and no call is
dropped that holds a connection.** -/
theorem conserved_iff {s t : NzbSession κ} {steps : List (PoolStep κ)} (h : 0 < s.available) :
    system.Path Conserves s steps t ↔ system.Path Keeps s steps t := by
  constructor
  · intro hpath
    refine hpath.mono_of (fun u => 0 < u.available) ?_ ?_ h
    · intro u a hu hg hcons
      exact lt_of_lt_of_le hu hcons.1
    · intro u a hu hg hcons
      exact (conserves_iff hg hu).mp hcons
  · intro hpath
    refine hpath.mono_of (fun u => 0 < u.available) ?_ ?_ h
    · intro u a hu hg hkeeps
      exact lt_of_lt_of_le hu ((conserves_iff hg hu).mpr hkeeps).1
    · intro u a hu hg hkeeps
      exact (conserves_iff hg hu).mpr hkeeps

theorem conserved_one : system.Path Conserves
    ⟨1, [0], .connecting [], []⟩ [PoolStep.call "a", .recv 0, .fetched 0 (.ok []), .putBack 0]
    (⟨1, [0], .connecting [], [⟨"a", .returned (.ok [])⟩]⟩ : NzbSession ℕ) :=
  (conserved_iff (by decide)).mpr
    (.cons rfl trivial (.cons rfl trivial (.cons rfl rfl (.cons rfl trivial (.nil _)))))

/-- An article is missing, and the next call waits for ever. -/
theorem pool_shrinks :
    ¬ ∀ (servers : List NzbServerConfig) (s t : NzbSession ℕ) (steps : List (PoolStep ℕ)),
      system.Reach GuardedSystem.anyStep (new servers) s → s.connector = .connecting [] →
        0 < s.available → system.Path GuardedSystem.anyStep s steps t →
          system.Path Conserves s steps t := by
  intro h
  have hopened : system.Path GuardedSystem.anyStep (new [⟨"news", none, none, 1⟩])
      [PoolStep.connected (some 0), .supplied] ⟨1, [0], .connecting [], []⟩ :=
    .cons rfl trivial (.cons rfl trivial (.nil _))
  have hconserved := h _ _ _
    [.call "a", .recv 0, .fetched 0 (.error (.refused "<a>" [52, 51, 48])), .call "b"]
    ⟨_, hopened⟩ rfl (by decide)
    (.cons rfl trivial (.cons rfl trivial (.cons rfl trivial (.cons rfl trivial (.nil _)))))
  cases hconserved with
  | cons _ _ hconserved =>
    cases hconserved with
    | cons _ _ hconserved =>
      cases hconserved with
      | cons _ hlost _ => exact absurd hlost.1 (by decide)

/-! ### All runs -/

/-- What may still come has room in the channel. -/
def Room (s : NzbSession κ) : Prop := s.available + s.connector.outstanding ≤ s.capacity

theorem outstanding_effect {a : PoolStep κ} (hg : s.guard a = true) :
    (s.effect a).connector.outstanding + a.supplies ≤ s.connector.outstanding ∧
      (s.effect a).capacity = s.capacity := by
  cases a with
  | connected client =>
    rw [guard] at hg
    split at hg
    · next auth left hconn =>
      cases client <;> cases auth <;>
        simp [effect, hconn, Connector.outstanding, PoolStep.supplies]
    · exact absurd hg Bool.false_ne_true
  | authenticated ok =>
    rw [guard] at hg
    split at hg
    · next client left hconn =>
      cases ok <;> simp [effect, hconn, Connector.outstanding, PoolStep.supplies]
    · exact absurd hg Bool.false_ne_true
  | supplied =>
    rw [guard] at hg
    split at hg
    · next client left hconn =>
      simp [effect, hconn, Connector.outstanding, PoolStep.supplies]
    · exact absurd hg Bool.false_ne_true
  | call messageId => exact ⟨le_rfl, rfl⟩
  | recv i =>
    unfold effect
    dsimp only
    split <;> exact ⟨le_rfl, rfl⟩
  | fetched i result =>
    unfold effect
    dsimp only
    split <;> exact ⟨le_rfl, rfl⟩
  | putBack i =>
    unfold effect
    dsimp only
    split <;> exact ⟨le_rfl, rfl⟩
  | drop i => exact ⟨le_rfl, rfl⟩

/-- **There is room for all connections.** -/
theorem room {servers : List NzbServerConfig} {s : NzbSession κ}
    (h : system.Reach GuardedSystem.anyStep (new servers) s) : s.Room := by
  apply h.invariant
  · simp [Room, available, held, new, Connector.outstanding, length_toOpen]
  · intro u a hu hg _
    obtain ⟨hout, hcapacity⟩ := outstanding_effect hg
    have hcount := available_effect hg
    show (u.effect a).available + (u.effect a).connector.outstanding ≤ (u.effect a).capacity
    rw [Room] at hu
    rw [hcapacity]
    omega

/-- **Nobody waits to put a connection back.** -/
theorem putBack_enabled {servers : List NzbServerConfig} {s : NzbSession κ} {i : ℕ} {client : κ}
    {data : List UInt8} (h : system.Reach GuardedSystem.anyStep (new servers) s)
    (hpc : s.pcAt i = some (.puttingBack client data)) : system.guard s (.putBack i) := by
  have hroom := room h
  have hheld := held_pos s hpc rfl
  show s.guard (.putBack i) = true
  rw [Room, available] at hroom
  simp only [guard, hpc, decide_eq_true_eq]
  omega

/-- **Connections that are lost are not replaced**: behind the last one, every call waits. -/
theorem starved {s t : NzbSession κ} (h : system.Reach GuardedSystem.anyStep s t)
    (hdone : s.connector.outstanding = 0) (hnone : s.available = 0) :
    t.available = 0 := by
  have key : t.connector.outstanding = 0 ∧ t.available = 0 := by
    apply h.invariant ⟨hdone, hnone⟩
    intro u a hu hg _
    have hout := (outstanding_effect hg).1
    have hcount := available_effect hg
    show (u.effect a).connector.outstanding = 0 ∧ (u.effect a).available = 0
    omega
  exact key.2

end NzbSession

end StreamServer.Nzb
