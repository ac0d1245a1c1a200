import StreamServer.Alerts.Hub

/-!
# Waiters and their senders

A call of `read_piece` that waits should be found by the alert it waits for: its sender is
in the table until a result is sent to it, or the torrent is removed.

A call that has timed out removes the sender it finds under its key if that has at most one
receiver, which it takes for its own.  But its own sender may have been used in the
meantime, and the sender in the table may be another call's.  If that call is the only one
to receive from it, nobody will send to it any more, although it still waits.

## Main definitions

* `Hub.Coherent` — the table, the channels and the calls go together.
* `Hub.Attached` — a call is found by the alert it waits for.
* `KeepsOthers` — the condition: no call removes a sender that another one waits for.

## Main results

* `Hub.coherent_of_reach` — the books are right in every run.
* `waiters_attached` — everybody is attached exactly as long as the condition is met, nobody
  lags behind, and what is dispatched reaches those it is for.

## References

`enginefs/src/backend/libtorrent/alerts.rs`.
-/

namespace StreamServer.Alerts

open Readers

/-! ### The condition -/

/-- The call waits, and has not timed out. -/
def CallPc.live : CallPc → Bool
  | .submitting | .waiting => true
  | _ => false

/-- The call holds its receiver. -/
def CallPc.holds : CallPc → Bool
  | .idle | .gone => false
  | _ => true

theorem CallPc.holds_of_live {pc : CallPc} (h : pc.live = true) : pc.holds = true := by
  cases pc <;> first | rfl | cases h

/-- A call that waits has its sender in the table, or has been sent a result, or its torrent
has been removed. -/
def Hub.Attached (s : Hub) (i : ℕ) : Prop :=
  let call := s.calls i
  call.pc.live = true →
    s.pieceSenders call.key = some call.channel ∨
      call.next < (s.channels call.channel).sent.length ∨ call.removed = true

instance (s : Hub) (i : ℕ) : Decidable (s.Attached i) := inferInstanceAs (Decidable (_ → _))

/-- **The condition.**  A call that removes the sender under its key leaves no other call
behind that waits for it. -/
def KeepsOthers (s : Hub) : Action → Prop
  | .call i .cleanUp =>
      ∀ c ∈ s.pieceSenders (s.calls i).key, s.receiverCount c ≤ 1 →
        ∀ j ∈ (s.channels c).receivers, j ≠ i → (s.calls j).pc.live = false
  | _ => True

instance (s : Hub) : ∀ a : Action, Decidable (KeepsOthers s a)
  | .call i .cleanUp =>
      inferInstanceAs (Decidable (∀ c ∈ s.pieceSenders (s.calls i).key, _))
  | .call _ (.join _) | .call _ (.submit _) | .call _ .recv | .call _ .fire
  | .call _ .leave | .call _ .cancel => inferInstanceAs (Decidable True)
  | .dispatch _ | .removeTorrent _ => inferInstanceAs (Decidable True)

/-- What is dispatched reaches every call that waits for it, and no other. -/
def Action.Reaches (s : Hub) : Action → Prop
  | .dispatch alert =>
      ∀ i, (s.calls i).pc.live = true → (s.calls i).removed = false →
        match alert.resultFor (s.calls i).key with
        | some result =>
            (∀ earlier, s.recv (s.calls i) ≠ .value earlier) →
              (s.dispatch alert).recv (s.calls i) = .value result
        | none => (s.dispatch alert).recv (s.calls i) = s.recv (s.calls i)
  | _ => True

/-! ### The books -/

/-- What a call that holds its receiver knows of its channel. -/
structure Call.Coherent (s : Hub) (call : Call) : Prop where
  channel : call.channel < s.newChannel
  key : (s.channels call.channel).key = call.key
  next : call.next = 0
  /-- What has left the table does not come back. -/
  removed : call.removed = true → ∀ key, s.pieceSenders key ≠ some call.channel

/-- The table, the channels and the calls go together. -/
structure Hub.Coherent (s : Hub) : Prop where
  table : ∀ key c, s.pieceSenders key = some c →
    c < s.newChannel ∧ (s.channels c).key = key ∧ (s.channels c).sent = []
  sentOnce : ∀ c, (s.channels c).sent.length ≤ 1
  receivers : ∀ c i, i ∈ (s.channels c).receivers ↔
    (s.calls i).pc.holds = true ∧ (s.calls i).channel = c
  call : ∀ i, (s.calls i).pc.holds = true → (s.calls i).Coherent s

section Steps

variable {s : Hub} {i : ℕ}

/-- Nobody lags behind a channel that sends once. -/
theorem Hub.Coherent.not_lagged (h : s.Coherent) (hi : (s.calls i).pc.holds = true) :
    s.recv (s.calls i) ≠ .lagged := by
  have hnext := (h.call i hi).next
  have hsent := h.sentOnce (s.calls i).channel
  unfold Hub.recv
  rw [if_neg (by omega)]
  split
  · simp
  · split <;> simp

/-- A call moves on, and keeps its receiver. -/
theorem Hub.Coherent.setPc (h : s.Coherent) {pc : CallPc}
    (hpc : pc.holds = (s.calls i).pc.holds) : (s.setPc i pc).Coherent := by
  have hcall : ∀ j, ∃ q : CallPc, (s.setPc i pc).calls j = { s.calls j with pc := q } ∧
      q.holds = (s.calls j).pc.holds := by
    intro j
    by_cases hj : j = i
    · subst hj
      exact ⟨pc, by simp [Hub.setPc, Hub.setCall], hpc⟩
    · exact ⟨(s.calls j).pc, by simp [Hub.setPc, Hub.setCall, hj], rfl⟩
  refine ⟨h.table, h.sentOnce, fun c j => ?_, fun j hj => ?_⟩
  · obtain ⟨q, hq, hholds⟩ := hcall j
    rw [hq, hholds]
    exact h.receivers c j
  · obtain ⟨q, hq, hholds⟩ := hcall j
    rw [hq] at hj ⊢
    have hcoherent := h.call j (hholds ▸ hj)
    exact ⟨hcoherent.channel, hcoherent.key, hcoherent.next, hcoherent.removed⟩

/-- Senders leave the table, and the channels they belonged to may get a result. -/
theorem Hub.Coherent.shrink (h : s.Coherent) {table : PieceKey → Option ℕ}
    {channels : ℕ → Broadcast} (htable : ∀ key c, table key = some c → s.pieceSenders key = some c)
    (hkey : ∀ c, (channels c).key = (s.channels c).key)
    (hreceivers : ∀ c, (channels c).receivers = (s.channels c).receivers)
    (hsent : ∀ c, (channels c).sent = (s.channels c).sent ∨
      ∃ key result, s.pieceSenders key = some c ∧ (∀ key, table key ≠ some c) ∧
        (channels c).sent = [result]) :
    ({ s with pieceSenders := table, channels := channels } : Hub).Coherent := by
  refine ⟨fun key c hc => ?_, fun c => ?_, fun c j => ?_, fun j hj => ?_⟩
  · obtain ⟨hlt, hk, hnil⟩ := h.table key c (htable key c hc)
    refine ⟨hlt, (hkey c).trans hk, ?_⟩
    rcases hsent c with heq | ⟨_, _, -, hgone, -⟩
    · rw [heq, hnil]
    · exact absurd hc (hgone key)
  · rcases hsent c with heq | ⟨_, result, -, -, heq⟩
    · rw [heq]
      exact h.sentOnce c
    · simp [heq]
  · rw [hreceivers]
    exact h.receivers c j
  · have hcall := h.call j hj
    refine ⟨hcall.channel, (hkey _).trans hcall.key, hcall.next, fun hr key hc => ?_⟩
    exact hcall.removed hr key (htable key _ hc)

theorem Hub.Coherent.removeSender (h : s.Coherent) (key : PieceKey) :
    (s.removeSender key).Coherent := by
  refine h.shrink (fun key' c hc => ?_) (fun _ => rfl) (fun _ => rfl) fun _ => Or.inl rfl
  by_cases hk : key' = key
  · simp [hk] at hc
  · simpa [hk] using hc

@[simp] theorem Hub.calls_fail (key : PieceKey) (error : String) :
    (s.fail key error).calls = s.calls := by
  unfold Hub.fail
  split <;> simp [Hub.removeSender, Hub.setChannel]

@[simp] theorem Hub.calls_cleanUp (key : PieceKey) : (s.cleanUp key).calls = s.calls := by
  unfold Hub.cleanUp
  split
  · split <;> simp [Hub.removeSender]
  · simp

theorem Hub.Coherent.fail (h : s.Coherent) (key : PieceKey) (error : String) :
    (s.fail key error).Coherent := by
  unfold Hub.fail
  split
  · next c hc =>
    obtain ⟨-, hkey, hnil⟩ := h.table key c hc
    refine h.shrink (fun key' c' hc' => ?_) (fun c' => ?_) (fun c' => ?_) fun c' => ?_
    · by_cases hk : key' = key
      · simp [Hub.removeSender, hk] at hc'
      · simpa [Hub.removeSender, hk] using hc'
    · by_cases hcc : c' = c
      · simp [Hub.removeSender, hcc]
      · simp [Hub.removeSender, hcc]
    · by_cases hcc : c' = c
      · simp [Hub.removeSender, hcc]
      · simp [Hub.removeSender, hcc]
    · by_cases hcc : c' = c
      · subst hcc
        refine Or.inr ⟨key, .error error, hc, fun key' hc' => ?_, by simp [Hub.removeSender, hnil]⟩
        by_cases hk : key' = key
        · simp [Hub.removeSender, hk] at hc'
        · -- a channel is in the table under its own key only
          obtain ⟨-, hkey', -⟩ := h.table key' c' (by simpa [Hub.removeSender, hk] using hc')
          exact hk (hkey'.symm.trans hkey)
      · exact Or.inl (by simp [Hub.removeSender, hcc])
  · exact h

theorem Hub.Coherent.cleanUp (h : s.Coherent) (key : PieceKey) : (s.cleanUp key).Coherent := by
  unfold Hub.cleanUp
  split
  · split
    · exact h.removeSender key
    · exact h
  · exact h

theorem Hub.Coherent.dispatch (h : s.Coherent) (alert : AlertInfo) :
    (s.dispatch alert).Coherent := by
  refine h.shrink (fun key c hc => ?_) (fun c => ?_) (fun c => ?_) fun c => ?_
  · split at hc
    · cases hc
    · exact hc
  · dsimp only
    split
    · split <;> rfl
    · rfl
  · dsimp only
    split
    · split <;> rfl
    · rfl
  · dsimp only
    split
    · next result hresult =>
      split
      · next hc =>
        obtain ⟨-, -, hnil⟩ := h.table _ c hc
        refine Or.inr ⟨_, result, hc, fun key hkey => ?_, by simp [hnil]⟩
        split at hkey
        · cases hkey
        · next hnone =>
          obtain ⟨-, hk, -⟩ := h.table key c hkey
          rw [hk] at hresult
          simp [hresult] at hnone
      · exact Or.inl rfl
    · exact Or.inl rfl

theorem Hub.Coherent.removeTorrent (h : s.Coherent) (infoHash : String) :
    (s.removeTorrent infoHash).Coherent := by
  have htable : ∀ key c, (s.removeTorrent infoHash).pieceSenders key = some c →
      s.pieceSenders key = some c ∧ key.1 ≠ infoHash := by
    intro key c hc
    dsimp only [Hub.removeTorrent] at hc
    split at hc
    · cases hc
    · next hne => exact ⟨hc, hne⟩
  have hcall : ∀ j, ∃ removed, (s.removeTorrent infoHash).calls j =
      { s.calls j with removed := removed } ∧
        (removed = true → (s.calls j).removed = true ∨ (s.calls j).key.1 = infoHash) := by
    intro j
    dsimp only [Hub.removeTorrent]
    split
    · next heq => exact ⟨true, rfl, fun _ => Or.inr heq⟩
    · exact ⟨(s.calls j).removed, rfl, Or.inl⟩
  refine ⟨fun key c hc => h.table key c (htable key c hc).1, h.sentOnce, fun c j => ?_,
    fun j hj => ?_⟩
  · obtain ⟨removed, hq, -⟩ := hcall j
    rw [hq]
    exact h.receivers c j
  · obtain ⟨removed, hq, hremoved⟩ := hcall j
    rw [hq] at hj ⊢
    have hcoherent := h.call j hj
    refine ⟨hcoherent.channel, hcoherent.key, hcoherent.next, fun hr key hc => ?_⟩
    obtain ⟨hc, hne⟩ := htable key _ hc
    rcases hremoved hr with hold | hhash
    · exact hcoherent.removed hold key hc
    · -- its channel was in the table under its key at most
      have hkey := (h.table key _ hc).2.1
      rw [hcoherent.key] at hkey
      rw [hkey] at hhash
      exact hne hhash

theorem Hub.Coherent.dropReceiver (h : s.Coherent) (hi : (s.calls i).pc.holds = true) :
    (s.dropReceiver i).Coherent := by
  have hcall : ∀ j ≠ i, (s.dropReceiver i).calls j = s.calls j := by
    intro j hj
    simp [Hub.dropReceiver, Hub.setPc, Hub.setCall, Hub.setChannel, hj]
  have hself : ((s.dropReceiver i).calls i).pc = .gone := by
    simp [Hub.dropReceiver, Hub.setPc, Hub.setCall]
  -- the receiver leaves its own channel, the table and the other channels stay
  have hchannel : ∀ c, (s.dropReceiver i).channels c =
      { s.channels c with
        receivers := if c = (s.calls i).channel then (s.channels c).receivers.erase i
          else (s.channels c).receivers } := by
    intro c
    by_cases hc : c = (s.calls i).channel
    · subst hc
      simp [Hub.dropReceiver, Hub.setPc, Hub.setCall, Hub.setChannel]
    · simp [Hub.dropReceiver, Hub.setPc, Hub.setCall, Hub.setChannel, hc]
  refine ⟨fun key c hc => ?_, fun c => ?_, fun c j => ?_, fun j hj => ?_⟩
  · rw [hchannel]
    exact h.table key c hc
  · rw [hchannel]
    exact h.sentOnce c
  · have hreceivers := h.receivers c j
    rw [hchannel]
    by_cases hj : j = i
    · subst hj
      rw [hself]
      dsimp only
      split
      · simp [CallPc.holds]
      · next hc =>
        rw [hreceivers]
        simp [CallPc.holds, Ne.symm hc]
    · rw [hcall j hj]
      dsimp only
      split
      · rw [Finset.mem_erase]
        simpa [hj] using hreceivers
      · exact hreceivers
  · by_cases hji : j = i
    · subst hji
      rw [hself] at hj
      cases hj
    · rw [hcall j hji] at hj ⊢
      have hcoherent := h.call j hj
      refine ⟨hcoherent.channel, ?_, hcoherent.next, hcoherent.removed⟩
      rw [hchannel]
      exact hcoherent.key

/-- A call comes in on a channel that nothing has been sent on, and that is its key's. -/
theorem Hub.Coherent.enter (h : s.Coherent) {s' : Hub} (call : Call) (channel : Broadcast)
    (hcalls : s'.calls = Function.update s.calls i call)
    (hchannels : s'.channels = Function.update s.channels call.channel channel)
    (htable : ∀ key c, s'.pieceSenders key = some c →
      s.pieceSenders key = some c ∨ key = call.key ∧ c = call.channel)
    (hnew : s.newChannel ≤ s'.newChannel) (hlt : call.channel < s'.newChannel)
    (hcall : call.pc.holds = true ∧ call.next = 0 ∧ call.removed = false)
    (hchannel : channel.key = call.key ∧ channel.sent = [] ∧
      channel.receivers = insert i (s.channels call.channel).receivers)
    (hidle : (s.calls i).pc.holds = false)
    (hsame : (s.channels call.channel).key = call.key ∧
        s.pieceSenders call.key = some call.channel ∨
      s.newChannel ≤ call.channel) : s'.Coherent := by
  obtain ⟨hholds, hnext, hremoved⟩ := hcall
  obtain ⟨hkey, hnil, hreceivers⟩ := hchannel
  -- whoever is on the channel already has its key
  have hkeys : ∀ c, c < s.newChannel → (s'.channels c).key = (s.channels c).key := by
    intro c hc
    by_cases hcc : c = call.channel
    · rcases hsame with ⟨hk, -⟩ | hfresh
      · simp [hchannels, hcc, hkey, hk]
      · omega
    · simp [hchannels, hcc]
  refine ⟨fun key c hc => ?_, fun c => ?_, fun c j => ?_, fun j hj => ?_⟩
  · rcases htable key c hc with hold | ⟨rfl, rfl⟩
    · obtain ⟨hclt, hck, hcnil⟩ := h.table key c hold
      refine ⟨by omega, (hkeys c hclt).trans hck, ?_⟩
      by_cases hcc : c = call.channel
      · simp [hchannels, hcc, hnil]
      · simpa [hchannels, hcc] using hcnil
    · exact ⟨hlt, by simp [hchannels, hkey], by simp [hchannels, hnil]⟩
  · by_cases hcc : c = call.channel
    · simp [hchannels, hcc, hnil]
    · simpa [hchannels, hcc] using h.sentOnce c
  · have hmem : j ∈ (s'.channels c).receivers ↔
        j ∈ (s.channels c).receivers ∨ j = i ∧ c = call.channel := by
      by_cases hcc : c = call.channel
      · simp [hchannels, hcc, hreceivers, or_comm]
      · simp [hchannels, hcc]
    rw [hmem, h.receivers, hcalls]
    by_cases hji : j = i
    · subst hji
      simp [hidle, hholds, eq_comm]
    · simp [hji]
  · rw [hcalls] at hj ⊢
    by_cases hji : j = i
    · subst hji
      rw [Function.update_self]
      exact ⟨hlt, by simp [hchannels, hkey], hnext, by simp [hremoved]⟩
    · rw [Function.update_of_ne hji] at hj ⊢
      have hold := h.call j hj
      refine ⟨by have := hold.channel; omega, (hkeys _ hold.channel).trans hold.key, hold.next,
        fun hr key hc => ?_⟩
      rcases htable key _ hc with hin | ⟨-, hcc⟩
      · exact hold.removed hr key hin
      · rcases hsame with ⟨-, hin⟩ | hfresh
        · exact hold.removed hr call.key (hcc ▸ hin)
        · have := hold.channel
          omega

theorem Hub.Coherent.join (h : s.Coherent) (key : PieceKey) (hi : (s.calls i).pc = .idle) :
    (s.join i key).Coherent := by
  have hidle : (s.calls i).pc.holds = false := by simp [hi, CallPc.holds]
  unfold Hub.join
  split
  · next c hc =>
    obtain ⟨hlt, hkey, hnil⟩ := h.table key c hc
    refine h.enter _ _ rfl rfl (fun _ _ hc' => Or.inl hc') (Nat.le_refl _) hlt ?_ ?_ hidle
      (Or.inl ⟨hkey, hc⟩)
    · simp [CallPc.holds, hnil]
    · simp [hkey, hnil]
  · -- nobody has received from a channel that has not been made
    have hfresh : (s.channels s.newChannel).receivers = ∅ := by
      refine Finset.eq_empty_of_forall_notMem fun j hj => ?_
      obtain ⟨hholds, hcj⟩ := (h.receivers s.newChannel j).mp hj
      have := (h.call j hholds).channel
      omega
    refine h.enter (i := i) ⟨key, s.newChannel, 0, .submitting, false, false⟩ ⟨key, [], {i}⟩
      rfl rfl (fun key' c hc => ?_) ?_ ?_ ?_ ?_ hidle (Or.inr (Nat.le_refl _))
    · by_cases hk : key' = key
      · subst hk
        exact Or.inr ⟨rfl, by simpa [eq_comm] using hc⟩
      · exact Or.inl (by simpa [hk] using hc)
    · simp
    · simp
    · simp [CallPc.holds]
    · simp [hfresh]

/-- Every step keeps the books. -/
theorem Hub.Coherent.step (h : s.Coherent) {a : Action} (hguard : a.guard s) :
    (a.effect s).Coherent := by
  cases a with
  | call i step =>
    cases step with
    | join key => exact h.join key hguard
    | submit submission =>
      have hpc : (s.calls i).pc = .submitting := hguard
      cases submission with
      | submitted => exact h.setPc (by simp [hpc, CallPc.holds])
      | refused error =>
        exact (h.fail _ error).setPc (by simp [hpc, CallPc.holds])
    | recv =>
      have hpc : (s.calls i).pc = .waiting := hguard.1
      exact h.setPc (by simp [hpc, CallPc.holds])
    | fire =>
      have hpc : (s.calls i).pc = .waiting := hguard.1
      exact h.setPc (by simp [hpc, CallPc.holds])
    | cleanUp =>
      have hpc : (s.calls i).pc = .timedOut := hguard
      exact (h.cleanUp _).setPc (by simp [hpc, CallPc.holds])
    | leave =>
      have hleaves : (s.calls i).pc.leaves = true := hguard
      refine h.dropReceiver ?_
      cases hpc : (s.calls i).pc <;> simp_all [CallPc.holds, CallPc.leaves]
    | cancel =>
      have hpc : (s.calls i).pc = .waiting := hguard
      exact h.dropReceiver (by simp [hpc, CallPc.holds])
  | dispatch alert => exact h.dispatch alert
  | removeTorrent infoHash => exact h.removeTorrent infoHash

end Steps

theorem Hub.coherent_new : Hub.new.Coherent where
  table _ _ hc := by simp [Hub.new] at hc
  sentOnce _ := by simp [Hub.new]
  receivers _ _ := by simp [Hub.new, CallPc.holds]
  call _ hi := by simp [Hub.new, CallPc.holds] at hi

/-- The books are right in every run. -/
theorem Hub.coherent_of_reach {k : Hub → Action → Prop} {s : Hub}
    (h : alertHub.Reach k .new s) : s.Coherent :=
  h.invariant Hub.coherent_new fun _ _ hs hguard _ => hs.step hguard

/-! ### Who stays attached -/

section Attached

variable {s : Hub} {i : ℕ}

theorem Hub.attached_setPc_of_ne {pc : CallPc} {j : ℕ} (hj : j ≠ i) :
    (s.setPc i pc).Attached j ↔ s.Attached j := by
  simp [Hub.Attached, Hub.setPc, Hub.setCall, hj]

theorem Hub.attached_setPc (hatt : ∀ j, s.Attached j) {pc : CallPc}
    (hi : pc.live = true → (s.calls i).pc.live = true) (j : ℕ) : (s.setPc i pc).Attached j := by
  by_cases hj : j = i
  · subst hj
    intro hlive
    have hpc : pc.live = true := by simpa [Hub.setPc, Hub.setCall] using hlive
    simpa [Hub.setPc, Hub.setCall] using hatt j (hi hpc)
  · exact (Hub.attached_setPc_of_ne hj).mpr (hatt j)

/-- What is sent on a channel that leaves the table has reached those who receive from it. -/
theorem Hub.attached_fail (h : s.Coherent) (hatt : ∀ j, s.Attached j) (key : PieceKey)
    (error : String) (j : ℕ) : (s.fail key error).Attached j := by
  unfold Hub.fail
  split
  · next c hc =>
    intro hlive
    have hcoherent := h.call j (CallPc.holds_of_live hlive)
    by_cases hcc : (s.calls j).channel = c
    · refine Or.inr (Or.inl ?_)
      simp [Hub.removeSender, Hub.setChannel, hcc, hcoherent.next]
    · have hold := hatt j hlive
      by_cases hk : (s.calls j).key = key
      · rw [hk, hc] at hold
        simpa [Hub.removeSender, Hub.setChannel, hk, hcc, Ne.symm hcc] using hold
      · simpa [Hub.removeSender, Hub.setChannel, hk, hcc] using hold
  · exact hatt j

theorem Hub.attached_dropReceiver (hatt : ∀ j, s.Attached j) (j : ℕ) :
    (s.dropReceiver i).Attached j := by
  refine Hub.attached_setPc (fun j hlive => ?_) (by simp [CallPc.live]) j
  have hold := hatt j hlive
  by_cases hc : (s.calls j).channel = (s.calls i).channel
  · simpa [Hub.setChannel, hc] using hc ▸ hold
  · simpa [Hub.setChannel, hc] using hold

theorem Hub.attached_join (h : s.Coherent) (hatt : ∀ j, s.Attached j) (key : PieceKey) (j : ℕ) :
    (s.join i key).Attached j := by
  unfold Hub.join
  split
  · next c hc =>
    intro hlive
    by_cases hj : j = i
    · subst hj
      exact Or.inl (by simpa [Hub.setCall, Hub.setChannel] using hc)
    · have hold := hatt j (by simpa [Hub.setCall, Hub.setChannel, hj] using hlive)
      by_cases hcc : (s.calls j).channel = c
      · simpa [Hub.setCall, Hub.setChannel, hj, hcc] using hcc ▸ hold
      · simpa [Hub.setCall, Hub.setChannel, hj, hcc] using hold
  · next hnone =>
    intro hlive
    by_cases hj : j = i
    · subst hj
      exact Or.inl (by simp [Hub.setCall])
    · have hold : (s.calls j).pc.live = true := by
        simpa [Hub.setCall, Hub.setChannel, hj] using hlive
      have hatt' := hatt j hold
      -- its channel is an older one
      have hlt := (h.call j (CallPc.holds_of_live hold)).channel
      have hne : (s.calls j).channel ≠ s.newChannel := by omega
      by_cases hk : (s.calls j).key = key
      · rw [hk, hnone] at hatt'
        simpa [Hub.setCall, Hub.setChannel, hj, hk, hne, hne.symm] using hatt'
      · simpa [Hub.setCall, Hub.setChannel, hj, hk, hne] using hatt'

theorem Hub.attached_dispatch (h : s.Coherent) (hatt : ∀ j, s.Attached j) (alert : AlertInfo)
    (j : ℕ) : (s.dispatch alert).Attached j := by
  intro hlive
  have hcoherent := h.call j (CallPc.holds_of_live hlive)
  rcases hatt j hlive with htable | hsent | hremoved
  · cases hresult : alert.resultFor (s.calls j).key with
    | none => exact Or.inl (by simpa [Hub.dispatch, hresult] using htable)
    | some result =>
      refine Or.inr (Or.inl ?_)
      simp [Hub.dispatch, hcoherent.key, hresult, htable, hcoherent.next]
  · refine Or.inr (Or.inl (hsent.trans_le ?_))
    dsimp only [Hub.dispatch]
    split
    · split <;> simp
    · simp
  · exact Or.inr (Or.inr hremoved)

theorem Hub.attached_removeTorrent (hatt : ∀ j, s.Attached j) (infoHash : String) (j : ℕ) :
    (s.removeTorrent infoHash).Attached j := by
  intro hlive
  by_cases hk : (s.calls j).key.1 = infoHash
  · exact Or.inr (Or.inr (by simp [Hub.removeTorrent, hk]))
  · have hold := hatt j (by simpa [Hub.removeTorrent, hk] using hlive)
    simpa [Hub.removeTorrent, hk] using hold

/-- **The step of a call that has timed out.** -/
theorem Hub.attached_cleanUp (h : s.Coherent) (hatt : ∀ j, s.Attached j) :
    (∀ j, j ≠ i → (s.cleanUp (s.calls i).key).Attached j) ↔ KeepsOthers s (.call i .cleanUp) := by
  constructor
  · intro hafter c hc hcount j hj hji
    obtain ⟨hholds, hchannel⟩ := (h.receivers c j).mp hj
    have hcoherent := h.call j hholds
    obtain ⟨-, hkey, hnil⟩ := h.table _ c hc
    rw [← hchannel, hcoherent.key] at hkey
    have heq : s.cleanUp (s.calls i).key = s.removeSender (s.calls i).key := by
      have hc' : s.pieceSenders (s.calls i).key = some c := hc
      simp [Hub.cleanUp, hc', hcount]
    by_contra hlive
    rw [Bool.not_eq_false] at hlive
    have hj' := hafter j hji
    rw [heq] at hj'
    rcases hj' hlive with htable | hsent | hremoved
    · simp [Hub.removeSender, hkey] at htable
    · simp [Hub.removeSender, hchannel, hnil] at hsent
    · exact hcoherent.removed hremoved _ (hchannel ▸ hc)
  -- a sender is removed only when no live call but this one is attached to it
  · intro hkeeps j hji
    unfold Hub.cleanUp
    split
    · next c hc =>
      split
      · next hcount =>
        intro hlive
        change (s.calls j).pc.live = true at hlive
        have hholds := CallPc.holds_of_live hlive
        rcases hatt j hlive with htable | hsent | hremoved
        · by_cases hk : (s.calls j).key = (s.calls i).key
          · -- it would be one of those the condition is about
            rw [hk, hc, Option.some.injEq] at htable
            have hmem := (h.receivers c j).mpr ⟨hholds, htable.symm⟩
            rw [hkeeps c hc hcount j hmem hji] at hlive
            cases hlive
          · exact Or.inl (by simpa [Hub.removeSender, hk] using htable)
        · exact Or.inr (Or.inl hsent)
        · exact Or.inr (Or.inr hremoved)
      · exact hatt j
    · exact hatt j

/-- Everybody stays attached exactly if the condition is met. -/
theorem Hub.attached_step (h : s.Coherent) (hatt : ∀ j, s.Attached j) {a : Action}
    (hguard : a.guard s) : (∀ j, (a.effect s).Attached j) ↔ KeepsOthers s a := by
  cases a with
  | call i step =>
    cases step with
    | cleanUp =>
      rw [← Hub.attached_cleanUp h hatt]
      constructor
      · intro hafter j hj
        exact (Hub.attached_setPc_of_ne hj).mp (hafter j)
      · intro hafter j
        by_cases hj : j = i
        · subst hj
          intro hlive
          -- the call itself is about to leave
          simp [Action.effect, CallStep.effect, Hub.setPc, Hub.setCall, CallPc.live] at hlive
        · exact (Hub.attached_setPc_of_ne hj).mpr (hafter j hj)
    | join key => exact iff_of_true (Hub.attached_join h hatt key) trivial
    | submit submission =>
      have hpc : (s.calls i).pc = .submitting := hguard
      refine iff_of_true (fun j => ?_) trivial
      cases submission with
      | submitted => exact Hub.attached_setPc hatt (by simp [hpc, CallPc.live]) j
      | refused error =>
        have hfail := Hub.attached_fail h hatt (s.calls i).key error
        exact Hub.attached_setPc hfail (by simp [hpc, CallPc.live]) j
    | recv => exact iff_of_true (Hub.attached_setPc hatt (by simp [CallPc.live])) trivial
    | fire => exact iff_of_true (Hub.attached_setPc hatt (by simp [CallPc.live])) trivial
    | leave => exact iff_of_true (Hub.attached_dropReceiver hatt) trivial
    | cancel => exact iff_of_true (Hub.attached_dropReceiver hatt) trivial
  | dispatch alert => exact iff_of_true (Hub.attached_dispatch h hatt alert) trivial
  | removeTorrent infoHash => exact iff_of_true (Hub.attached_removeTorrent hatt infoHash) trivial

end Attached

/-! ### What a dispatch reaches -/

theorem Hub.Coherent.recv_of_nil {s : Hub} {i : ℕ} (h : s.Coherent)
    (hi : (s.calls i).pc.holds = true) {result : PieceResult}
    (hsent : (s.channels (s.calls i).channel).sent = [result]) :
    s.recv (s.calls i) = .value result := by
  simp [Hub.recv, hsent, (h.call i hi).next]

/-- A result reaches those it is for, and no others. -/
theorem Hub.reaches {s : Hub} (h : s.Coherent) (hatt : ∀ j, s.Attached j) (a : Action) :
    a.Reaches s := by
  cases a with
  | call _ _ | removeTorrent _ => trivial
  | dispatch alert =>
    intro i hlive hremoved
    have hholds := CallPc.holds_of_live hlive
    have hcoherent := h.call i hholds
    cases hresult : alert.resultFor (s.calls i).key with
    | none => simp [Hub.recv, Hub.dispatch, hcoherent.key, hresult]
    | some result =>
      intro hfirst
      rcases hatt i hlive with htable | hsent | hgone
      · have hnil := (h.table _ _ htable).2.2
        refine (h.dispatch alert).recv_of_nil (i := i) hholds ?_
        change ((s.dispatch alert).channels (s.calls i).channel).sent = [result]
        simp [Hub.dispatch, hcoherent.key, hresult, htable, hnil]
      · -- its channel has sent what it sends
        have hone := h.sentOnce (s.calls i).channel
        rw [hcoherent.next] at hsent
        obtain ⟨earlier, hearlier⟩ := List.length_eq_one_iff.mp (Nat.le_antisymm hone hsent)
        exact absurd (h.recv_of_nil hholds hearlier) (hfirst earlier)
      · rw [hremoved] at hgone
        cases hgone

/-! ### The law -/

/-- **Waiters stay attached exactly as long as the condition is met.**  In every run of the
hub whose cleanups meet the condition, every waiting call is attached, none lags behind and a
dispatch reaches those it is for; and the next step leaves everybody attached if and only if it
meets the condition. -/
theorem waiters_attached {s : Hub} (h : alertHub.Reach KeepsOthers .new s) :
    (∀ i, s.Attached i) ∧
      (∀ i, (s.calls i).pc.holds = true → s.recv (s.calls i) ≠ .lagged) ∧
      (∀ a : Action, a.Reaches s) ∧
      ∀ a : Action, a.guard s → ((∀ i, (a.effect s).Attached i) ↔ KeepsOthers s a) := by
  have hcoherent := Hub.coherent_of_reach h
  have hatt : ∀ i, s.Attached i := by
    refine h.invariant_of (fun u hu => Hub.coherent_of_reach hu) ?_
      fun u a hu hatt hg hc => (Hub.attached_step hu hatt hg).mpr hc
    intro i hlive
    simp [Hub.new, CallPc.live] at hlive
  exact ⟨hatt, fun i hi => hcoherent.not_lagged hi, Hub.reaches hcoherent hatt,
    fun a hg => Hub.attached_step hcoherent hatt hg⟩

/-- The piece, and the alert that brings it. -/
def piece : PieceKey := ("ab", 0)

/-- The alert that brings the piece 0 of `ab`. -/
def pieceAlert : AlertInfo := ⟨.readPiece, "ab", 0, [1], ""⟩

/-- Two calls share a sender, one of them times out and leaves the sender alone. -/
theorem waiters_attached_shared :
    ∃ s, alertHub.Reach KeepsOthers .new s ∧
      (s.calls 1).pc = .waiting ∧ s.pieceSenders piece = some 0 ∧ s.Attached 1 := by
  obtain ⟨s, hs, hpc, htable⟩ :
      ∃ s, alertHub.Reach KeepsOthers .new s ∧
        ((s.calls 1).pc = .waiting ∧ s.pieceSenders piece = some 0) :=
    GuardedSystem.exists_reach_of_exec
      [Action.call 0 (.join piece), .call 0 (.submit .submitted), .call 1 (.join piece),
        .call 0 .fire, .call 0 .cleanUp, .call 0 .leave]
      (by decide)
  exact ⟨s, hs, hpc, htable, (waiters_attached hs).1 1⟩

/-- The first call times out, its piece comes, a second call makes a sender, a third joins
that and the second is cancelled: now the first removes the sender the third waits for. -/
theorem waiter_detached :
    ∃ s, alertHub.Reach GuardedSystem.anyStep .new s ∧
      ((s.calls 2).joined = true ∧ (s.calls 2).pc = .waiting ∧ (s.calls 2).removed = false ∧
        ¬ s.Attached 2 ∧ s.recv (s.calls 2) = .closed ∧
        (s.dispatch pieceAlert).recv (s.calls 2) = .closed) :=
  GuardedSystem.exists_reach_of_exec
    [Action.call 0 (.join piece), .call 0 (.submit .submitted), .call 0 .fire,
      .dispatch pieceAlert, .call 1 (.join piece), .call 1 (.submit .submitted),
      .call 2 (.join piece), .call 1 .cancel, .call 0 .cleanUp]
    (by decide)

end StreamServer.Alerts
