import StreamServer.Updater.Staging
import StreamServer.Updater.Versions

/-!
# The latest release

Of the releases of its channel the updater selects the one with the latest version, among those that are newer
than the program and have all assets.

## Main definitions

* `normalizeCurrentVersion` — the version of the program, packed as the tags are.
* `selectLatestCandidate` — the selection.
* `Best` — what is selected among the releases so far.
* `Eligible` — a release that may be selected, in terms of its tag.

## Main results

* `best_consider`, `best_foldlM` — **what is selected is the best**, after a release and after all of them.
* `selectLatestCandidate_eligible` — where the tags are sound, no eligible release exceeds what is selected.
* `tags_and_selection` — which tags are ordered as their versions, and what that means for the selection.

## References

`server/src/updater/github.rs`, `server/src/updater/version.rs`.
-/

namespace StreamServer.Updater

open SemVer

/-- `UpdateChannel`. -/
inductive UpdateChannel
  | stable
  | prerelease
  deriving DecidableEq, Repr

/-- `GitHubRelease`. -/
structure GitHubRelease where
  tagName : List Char
  htmlUrl : String
  draft : Bool
  prerelease : Bool
  assets : List ReleaseAssetInfo

/-- A candidate, and whether it is a prerelease. -/
structure Candidate extends UpdateCandidate where
  prerelease : Bool

/-- The candidate that the release gives with its assets. -/
def GitHubRelease.candidate (release : GitHubRelease) (assets : RequiredAssets) : Candidate where
  version := String.ofList (release.tagName.dropWhile (· = 'v'))
  tag := String.ofList release.tagName
  releaseUrl := release.htmlUrl
  assets := assets
  prerelease := release.prerelease

section Select

variable (lib : Library)

/-- `normalize_current_version`, for a program of this version. -/
def normalizeCurrentVersion (v : Version lib) : Checked.Run (Version lib) :=
  (Checked.mul (2 ^ 64) v.patch 10000).map fun patch => ⟨v.major, v.minor, patch, lib.empty⟩

/-- What the loop has found. -/
structure Selection where
  selected : Option (Version lib × Candidate)
  lastAssetError : Option UpdateErrorKind

/-- One round of the loop. -/
def consider (channel : UpdateChannel) (current : Version lib) (s : Selection lib) (release : GitHubRelease) :
    Checked.Run (Selection lib) :=
  if release.draft then .ok s
  else if channel = .stable ∧ release.prerelease then .ok s
  else
    (parseReleaseTag lib release.tagName).map fun
      | none => s
      | some version =>
          if !isNewer lib version current then s
          else
            match selectRequiredAssets release.assets with
            | .error err => { s with lastAssetError := some err }
            | .ok assets =>
                if s.selected.all fun selected => version.cmp selected.1 = .gt then
                  { s with selected := some (version, release.candidate assets) }
                else s

/-- `select_latest_candidate`. -/
def selectLatestCandidate (releases : List GitHubRelease) (channel : UpdateChannel) (current : Version lib) :
    Checked.Run (Except UpdateErrorKind (Option Candidate)) :=
  (releases.foldlM (consider lib channel current) ⟨none, none⟩).map fun s =>
    match s.selected, s.lastAssetError with
    | some selected, _ => .ok (some selected.2)
    | none, some _ => .error .invalidRelease
    | none, none => .ok none

end Select

variable {lib : Library} {channel : UpdateChannel} {current : Version lib}

/-! ### The best release -/

/-- A release that the channel does not pass over. -/
def Considered (channel : UpdateChannel) (r : GitHubRelease) : Prop :=
  r.draft = false ∧ ¬ (channel = .stable ∧ r.prerelease = true)

/-- A release with this version that may be selected. -/
structure Offered (channel : UpdateChannel) (current : Version lib) (r : GitHubRelease) (v : Version lib)
    (assets : RequiredAssets) : Prop where
  considered : Considered channel r
  version : parseReleaseTag lib r.tagName = .ok (some v)
  newer : v.cmp current = .gt
  complete : selectRequiredAssets r.assets = .ok assets

/-- What is selected is on offer, and nothing on offer exceeds it. -/
structure Best (channel : UpdateChannel) (current : Version lib) (seen : List GitHubRelease) (s : Selection lib) :
    Prop where
  unselected : s.selected = none → ∀ r ∈ seen, ∀ v assets, ¬ Offered channel current r v assets
  isBest : ∀ v c, s.selected = some (v, c) →
    (∃ r ∈ seen, ∃ assets, Offered channel current r v assets ∧ c = r.candidate assets) ∧
      ∀ r ∈ seen, ∀ v' assets, Offered channel current r v' assets → v'.key ≤ v.key

theorem cmp_gt_iff (hlib : lib.Lawful) {v w : Version lib} : v.cmp w = .gt ↔ w.key < v.key := by
  rw [cmp_eq_compare hlib, compare_gt_iff_gt]

/-- A release that is not on offer changes nothing. -/
theorem Best.skip {seen : List GitHubRelease} {s s' : Selection lib} {r : GitHubRelease}
    (h : Best channel current seen s) (hselected : s'.selected = s.selected)
    (hr : ∀ v assets, ¬ Offered channel current r v assets) : Best channel current (seen ++ [r]) s' := by
  constructor
  · intro hnone r' hr' v assets hoffer
    rcases List.mem_append.mp hr' with hr' | hr'
    · exact h.unselected (hselected ▸ hnone) r' hr' v assets hoffer
    · rw [List.mem_singleton.mp hr'] at hoffer
      exact hr v assets hoffer
  · intro v c hsome
    obtain ⟨⟨r', hr', hoffer⟩, hbest⟩ := h.isBest v c (hselected ▸ hsome)
    refine ⟨⟨r', List.mem_append_left _ hr', hoffer⟩, fun r'' hr'' v' assets hoffer' => ?_⟩
    rcases List.mem_append.mp hr'' with hr'' | hr''
    · exact hbest r'' hr'' v' assets hoffer'
    · rw [List.mem_singleton.mp hr''] at hoffer'
      exact absurd hoffer' (hr v' assets)

/-- A release that exceeds what is selected takes its place. -/
theorem Best.replace {seen : List GitHubRelease} {s : Selection lib} {r : GitHubRelease} {v : Version lib}
    {assets : RequiredAssets} (h : Best channel current seen s) (hoffer : Offered channel current r v assets)
    (honly : ∀ v' assets', Offered channel current r v' assets' → v' = v)
    (hexceeds : ∀ selected, s.selected = some selected → selected.1.key < v.key) :
    Best channel current (seen ++ [r]) { s with selected := some (v, r.candidate assets) } := by
  constructor
  · intro hnone
    cases hnone
  · intro v' c hsome
    obtain ⟨rfl, rfl⟩ := Prod.mk.inj (Option.some.inj hsome)
    refine ⟨⟨r, by simp, assets, hoffer, rfl⟩, fun r' hr' v'' assets' hoffer' => ?_⟩
    rcases List.mem_append.mp hr' with hr' | hr'
    · cases hselected : s.selected with
      | none => exact absurd hoffer' (h.unselected hselected r' hr' v'' assets')
      | some selected =>
        exact le_of_lt (lt_of_le_of_lt ((h.isBest selected.1 selected.2 hselected).2 r' hr' v'' assets' hoffer')
          (hexceeds selected hselected))
    · rw [List.mem_singleton.mp hr'] at hoffer'
      rw [honly v'' assets' hoffer']

/-- A release that does not exceed what is selected is passed over. -/
theorem Best.keep {seen : List GitHubRelease} {s : Selection lib} {r : GitHubRelease}
    {selected : Version lib × Candidate} (h : Best channel current seen s) (hselected : s.selected = some selected)
    (hr : ∀ v assets, Offered channel current r v assets → v.key ≤ selected.1.key) :
    Best channel current (seen ++ [r]) s := by
  constructor
  · intro hnone
    rw [hnone] at hselected
    cases hselected
  · intro v c hsome
    obtain ⟨⟨r', hr', hoffer⟩, hbest⟩ := h.isBest v c hsome
    refine ⟨⟨r', List.mem_append_left _ hr', hoffer⟩, fun r'' hr'' v' assets hoffer' => ?_⟩
    rcases List.mem_append.mp hr'' with hr'' | hr''
    · exact hbest r'' hr'' v' assets hoffer'
    · rw [List.mem_singleton.mp hr''] at hoffer'
      rw [hselected] at hsome
      obtain rfl := Option.some.inj hsome
      exact hr v' assets hoffer'

/-- **A round keeps the best.** -/
theorem best_consider (hlib : lib.Lawful) {seen : List GitHubRelease} {s s' : Selection lib} {r : GitHubRelease}
    (h : Best channel current seen s) (hstep : consider lib channel current s r = .ok s') :
    Best channel current (seen ++ [r]) s' := by
  -- a round skips the release, takes it, or keeps the selected one: the cases of the loop's body
  rw [consider] at hstep
  split at hstep
  · next hdraft =>
    obtain rfl := Except.ok.inj hstep
    exact h.skip rfl fun v assets hoffer => by simp [hoffer.considered.1] at hdraft
  · split at hstep
    · next hchannel =>
      obtain rfl := Except.ok.inj hstep
      exact h.skip rfl fun v assets hoffer => hoffer.considered.2 hchannel
    · next hdraft hchannel =>
      have hconsidered : Considered channel r := ⟨by simpa using hdraft, hchannel⟩
      cases hparse : parseReleaseTag lib r.tagName with
      | error stop =>
        rw [hparse] at hstep
        cases hstep
      | ok parsed =>
        rw [hparse] at hstep
        have heq := (Except.ok.inj hstep).symm
        cases parsed with
        | none =>
          subst heq
          exact h.skip rfl fun v assets hoffer => by simpa [hparse] using hoffer.version
        | some version =>
          -- a release offers no version but that of its tag
          have honly : ∀ {v assets}, Offered channel current r v assets → v = version := fun hoffer => by
            simpa [hparse] using hoffer.version.symm
          dsimp only at heq
          split at heq
          · next hnot =>
            subst heq
            refine h.skip rfl fun v assets hoffer => ?_
            rw [Bool.not_eq_true', isNewer, decide_eq_false_iff_not] at hnot
            exact hnot (honly hoffer ▸ hoffer.newer)
          · next hnewer =>
            split at heq
            · next err hassets =>
              subst heq
              exact h.skip rfl fun v assets hoffer => by simpa [hassets] using hoffer.complete
            · next assets hassets =>
              have hoffer : Offered channel current r version assets := by
                refine ⟨hconsidered, hparse, ?_, hassets⟩
                simpa [isNewer] using hnewer
              split at heq
              · next hexceeds =>
                subst heq
                refine h.replace hoffer (fun _ _ => honly) fun selected hselected => ?_
                rw [hselected, Option.all_some, decide_eq_true_iff, cmp_gt_iff hlib] at hexceeds
                exact hexceeds
              · next hnot =>
                rw [heq]
                cases hselected : s.selected with
                | none => simp [hselected] at hnot
                | some selected =>
                  rw [hselected, Option.all_some, decide_eq_true_iff, cmp_gt_iff hlib, not_lt] at hnot
                  exact h.keep hselected fun v assets hoffer => honly hoffer ▸ hnot

/-- **The loop finds the best.** -/
theorem best_foldlM (hlib : lib.Lawful) {seen rest : List GitHubRelease} {s s' : Selection lib}
    (h : Best channel current seen s) (hrun : rest.foldlM (consider lib channel current) s = .ok s') :
    Best channel current (seen ++ rest) s' := by
  induction rest generalizing seen s with
  | nil =>
    obtain rfl := Except.ok.inj hrun
    rwa [List.append_nil]
  | cons r rest ih =>
    rw [List.foldlM_cons, Checked.bind_ok_iff] at hrun
    obtain ⟨next, hstep, hrest⟩ := hrun
    rw [List.append_cons]
    exact ih (best_consider hlib h hstep) hrest

/-! ### Sound tags -/

/-- A tag that is sound, or that is no version. -/
def Readable (lib : Library) (r : GitHubRelease) : Prop :=
  (∃ t : Tag, t.Sound ∧ r.tagName = t.text) ∨ parseReleaseTag lib r.tagName = .ok none

/-- The place of the version of the program among the tags. -/
def currentKey (v : Version lib) : ℕ ×ₗ ℕ ×ₗ ℕ ×ₗ ℕ ×ₗ Precedence :=
  toLex (v.major, toLex (v.minor, toLex (v.patch, toLex (0, ⊤))))

/-- A release that may be selected, in terms of its tag. -/
structure Eligible (channel : UpdateChannel) (program : Version lib) (r : GitHubRelease) (t : Tag) : Prop where
  considered : Considered channel r
  tag : r.tagName = t.text
  sound : t.Sound
  newer : currentKey program < t.key
  complete : ∃ assets, selectRequiredAssets r.assets = .ok assets

/-- A readable release does not stop the loop. -/
theorem consider_ok (hlib : lib.Lawful) (s : Selection lib) {r : GitHubRelease}
    (hread : Considered channel r → Readable lib r) : ∃ s', consider lib channel current s r = .ok s' := by
  rw [consider]
  split
  · exact ⟨_, rfl⟩
  · next hdraft =>
    split
    · exact ⟨_, rfl⟩
    · next hchannel =>
      rcases hread ⟨by simpa using hdraft, hchannel⟩ with ⟨t, hsound, htag⟩ | hnone
      · obtain ⟨v, hv, -⟩ := parseReleaseTag_text hlib hsound.fits
        rw [htag, hv]
        exact ⟨_, rfl⟩
      · rw [hnone]
        exact ⟨_, rfl⟩

theorem foldlM_ok (hlib : lib.Lawful) {releases : List GitHubRelease}
    (hread : ∀ r ∈ releases, Considered channel r → Readable lib r) (s : Selection lib) :
    ∃ s', releases.foldlM (consider lib channel current) s = .ok s' := by
  induction releases generalizing s with
  | nil => exact ⟨s, rfl⟩
  | cons r releases ih =>
    obtain ⟨s', hstep⟩ := consider_ok hlib s (hread r List.mem_cons_self)
    obtain ⟨s'', hrest⟩ := ih (fun r' hr' => hread r' (List.mem_cons_of_mem _ hr')) s'
    exact ⟨s'', by rw [List.foldlM_cons, hstep, Checked.ok_bind, hrest]⟩

/-- A version is newer than that of the program if its tag is. -/
theorem current_lt_iff (hlib : lib.Lawful) {program : Version lib} {t : Tag} {v : Version lib}
    (hcurrent : normalizeCurrentVersion lib program = .ok current) (ht : t.Sound)
    (hv : parseReleaseTag lib t.text = .ok (some v)) : current.key < v.key ↔ currentKey program < t.key := by
  obtain ⟨v', hv', hvkey⟩ := parseReleaseTag_text hlib ht.fits
  obtain rfl : v = v' := by simpa using hv.symm.trans hv'
  have hkey : current.key = toLex (program.major, toLex (program.minor, toLex (program.patch * 10000 + 0, ⊤))) := by
    rw [normalizeCurrentVersion] at hcurrent
    cases hmul : Checked.mul (2 ^ 64) program.patch 10000 with
    | error stop =>
      rw [hmul] at hcurrent
      cases hcurrent
    | ok packed =>
      rw [hmul] at hcurrent
      rw [← Except.ok.inj hcurrent, Version.key, hlib.text_empty, precedence_nil, Nat.add_zero,
        (Checked.mul_eq_ok_iff.mp hmul).2]
  rw [hkey, hvkey, ht.readPre_eq, currentKey, Tag.key]
  exact toLex_lt_iff (toLex_lt_iff (packed_lt_iff (by decide) ht.fourth))

/-- What is on offer under a sound tag is eligible, and the other way round. -/
theorem offered_iff (hlib : lib.Lawful) {program : Version lib} {r : GitHubRelease} {t : Tag}
    (hcurrent : normalizeCurrentVersion lib program = .ok current) (ht : t.Sound) (htag : r.tagName = t.text) :
    (∃ v assets, Offered channel current r v assets) ↔ Eligible channel program r t := by
  constructor
  · intro h
    obtain ⟨v, assets, hoffer⟩ := h
    have hv := hoffer.version
    rw [htag] at hv
    exact ⟨hoffer.considered, htag, ht,
      (current_lt_iff hlib hcurrent ht hv).mp ((cmp_gt_iff hlib).mp hoffer.newer), assets, hoffer.complete⟩
  · intro h
    obtain ⟨v, hv, -⟩ := parseReleaseTag_text hlib ht.fits
    obtain ⟨assets, hassets⟩ := h.complete
    exact ⟨v, assets, h.considered, by rw [htag, hv],
      (cmp_gt_iff hlib).mpr ((current_lt_iff hlib hcurrent ht hv).mpr h.newer), hassets⟩

/-- The versions of sound tags are ordered as the tags. -/
theorem key_le_iff (hlib : lib.Lawful) {t u : Tag} (ht : t.Sound) (hu : u.Sound) {v w : Version lib}
    (hv : parseReleaseTag lib t.text = .ok (some v)) (hw : parseReleaseTag lib u.text = .ok (some w)) :
    v.key ≤ w.key ↔ t.key ≤ u.key := by
  obtain ⟨v', w', hv', hw', hcmp⟩ := compare_key hlib ht hu
  obtain rfl : v = v' := by simpa using hv.symm.trans hv'
  obtain rfl : w = w' := by simpa using hw.symm.trans hw'
  rw [← compare_le_iff_le, ← compare_le_iff_le, ← cmp_eq_compare hlib, hcmp]

/-- **No eligible release exceeds what is selected**, where the tags are sound. -/
theorem selectLatestCandidate_eligible (hlib : lib.Lawful) {program : Version lib}
    (hcurrent : normalizeCurrentVersion lib program = .ok current) {releases : List GitHubRelease}
    (hread : ∀ r ∈ releases, Considered channel r → Readable lib r) :
    ∃ result, selectLatestCandidate lib releases channel current = .ok result ∧
      (∀ c, result = .ok (some c) → ∃ r ∈ releases, ∃ t, Eligible channel program r t ∧
        c.tag = String.ofList r.tagName ∧ ∀ r' ∈ releases, ∀ t', Eligible channel program r' t' → t'.key ≤ t.key) ∧
      ((∃ r ∈ releases, ∃ t, Eligible channel program r t) → ∃ c, result = .ok (some c)) := by
  obtain ⟨s, hrun⟩ : ∃ s, releases.foldlM (consider lib channel current) ⟨none, none⟩ = .ok s :=
    foldlM_ok hlib hread _
  have hbest : Best channel current releases s := by
    have hstart : Best channel current [] (⟨none, none⟩ : Selection lib) :=
      ⟨fun _ r hr => absurd hr List.not_mem_nil, fun _ _ h => nomatch h⟩
    exact best_foldlM hlib hstart hrun
  rw [selectLatestCandidate, hrun]
  refine ⟨_, rfl, fun c hc => ?_, fun heligible => ?_⟩
  · dsimp only at hc
    cases hselected : s.selected with
    | none =>
      rw [hselected] at hc
      cases herror : s.lastAssetError <;> simp [herror] at hc
    | some selected =>
      rw [hselected] at hc
      obtain rfl : selected.2 = c := by simpa using hc
      obtain ⟨⟨r, hr, assets, hoffer, hcandidate⟩, hmax⟩ := hbest.isBest selected.1 selected.2 hselected
      obtain ⟨t, ht, htag⟩ | hnone := hread r hr hoffer.considered
      · refine ⟨r, hr, t, (offered_iff hlib hcurrent ht htag).mp ⟨_, _, hoffer⟩, by rw [hcandidate]; rfl,
          fun r' hr' t' heligible => ?_⟩
        obtain ⟨v', assets', hoffer'⟩ := (offered_iff hlib hcurrent heligible.sound heligible.tag).mpr heligible
        exact (key_le_iff hlib heligible.sound ht (heligible.tag ▸ hoffer'.version) (htag ▸ hoffer.version)).mp
          (hmax r' hr' v' assets' hoffer')
      · rw [hoffer.version] at hnone
        cases hnone
  · obtain ⟨r, hr, t, heligible⟩ := heligible
    obtain ⟨v, assets, hoffer⟩ := (offered_iff hlib hcurrent heligible.sound heligible.tag).mpr heligible
    cases hselected : s.selected with
    | none => exact absurd hoffer (hbest.unselected hselected r hr v assets)
    | some selected =>
      refine ⟨selected.2, ?_⟩
      dsimp only
      rw [hselected]

/-- **Which tags are ordered as their versions**, and what that means for the selection. -/
theorem tags_and_selection (lib : Library) (hlib : lib.Lawful) :
    (∀ t : Tag, t.Sound ↔
      (∃ v, parseReleaseTag lib t.text = .ok (some v)) ∧ ∀ u, Tag.Sound u → Agree lib t u) ∧
    ∀ channel program current releases, normalizeCurrentVersion lib program = .ok current →
      (∀ r ∈ releases, Considered channel r → Readable lib r) →
      ∃ result, selectLatestCandidate lib releases channel current = .ok result ∧
        (∀ c, result = .ok (some c) → ∃ r ∈ releases, ∃ t, Eligible channel program r t ∧
          c.tag = String.ofList r.tagName ∧ ∀ r' ∈ releases, ∀ t', Eligible channel program r' t' → t'.key ≤ t.key) ∧
        ((∃ r ∈ releases, ∃ t, Eligible channel program r t) → ∃ c, result = .ok (some c)) :=
  ⟨sound_iff hlib, fun _ _ _ _ hcurrent hread => selectLatestCandidate_eligible hlib hcurrent hread⟩

/-! ### Two tags -/

/-- The tag `v0.1.C` or `v0.1.C.D`. -/
def sampleTag (c : ℕ) (d : Option ℕ) : Tag :=
  ⟨true, .ofNat 0, .ofNat 1, some (.ofNat c, d.map .ofNat), none, none⟩

theorem sampleTag_key (c d : ℕ) :
    (sampleTag c (some d)).key = toLex (0, toLex (1, toLex (c, toLex (d, ⊤)))) ∧
      (sampleTag c none).key = toLex (0, toLex (1, toLex (c, toLex (0, ⊤)))) := by
  simp [sampleTag, Tag.key, Tag.third, Tag.fourth, Tag.preText, Numeral.value_ofNat]

theorem sampleTag_fits {c d : ℕ} (h : c * 10000 + d < 2 ^ 64) : (sampleTag c (some d)).Fits := by
  refine ⟨?_, ?_, ?_⟩
  · rw [sampleTag, Numeral.value_ofNat]
    decide
  · rw [sampleTag, Numeral.value_ofNat]
    decide
  · simpa [sampleTag, Tag.third, Tag.fourth, Numeral.value_ofNat] using h

theorem sampleTag_fits_none {c : ℕ} (h : c * 10000 < 2 ^ 64) : (sampleTag c none).Fits := by
  refine ⟨?_, ?_, ?_⟩
  · rw [sampleTag, Numeral.value_ofNat]
    decide
  · rw [sampleTag, Numeral.value_ofNat]
    decide
  · simpa [sampleTag, Tag.third, Tag.fourth, Numeral.value_ofNat] using h

/-- `v0.1.7.10000` is read as `v0.1.8` is. -/
theorem carried_not_agree : ¬ Agree reference (sampleTag 7 (some 10000)) (sampleTag 8 none) := by
  intro h
  obtain ⟨v, w, hv, hw, hcmp⟩ := h
  obtain ⟨v', hv', hvkey⟩ := parseReleaseTag_text reference_lawful (sampleTag_fits (show 7 * 10000 + 10000 < 2 ^ 64 by decide))
  obtain ⟨w', hw', hwkey⟩ := parseReleaseTag_text reference_lawful (sampleTag_fits_none (show 8 * 10000 < 2 ^ 64 by decide))
  obtain rfl : v = v' := by simpa using hv.symm.trans hv'
  obtain rfl : w = w' := by simpa using hw.symm.trans hw'
  have hsame : v.key = w.key := by
    rw [hvkey, hwkey]
    simp [sampleTag, Tag.third, Tag.fourth, Tag.readPre, Tag.suffix, Numeral.value_ofNat]
  have hless : (sampleTag 7 (some 10000)).key < (sampleTag 8 none).key := by
    rw [(sampleTag_key 7 10000).1, (sampleTag_key 8 0).2]
    simp [Prod.Lex.toLex_lt_toLex]
  rw [cmp_eq_compare reference_lawful, compare_eq_iff_eq.mpr hsame, compare_lt_iff_lt.mpr hless] at hcmp
  cases hcmp

theorem sampleTag_sound {c d : ℕ} (h : c * 10000 + d < 2 ^ 64) (hd : d < 10000) :
    (sampleTag c (some d)).Sound ∧ (sampleTag c none).Sound := by
  refine ⟨⟨sampleTag_fits h, ?_, fun b hb => nomatch hb⟩,
    ⟨sampleTag_fits_none (Nat.lt_of_le_of_lt (Nat.le_add_right _ _) h), ?_, fun b hb => nomatch hb⟩⟩
  · simpa [sampleTag, Tag.fourth, Numeral.value_ofNat] using hd
  · simp [sampleTag, Tag.fourth]

/-- What a release has to have. -/
def sampleReleaseAssets : List ReleaseAssetInfo :=
  ["SHA256SUMS.txt", "stream-server-windows-amd64.exe", "stremio-runtime-windows-amd64.exe",
    "stream-server-updater-windows-amd64.exe"].map fun name => ⟨name, "https://example.test/" ++ name, 1⟩

/-- `v0.1.7.2`, and a draft of `v0.1.8`. -/
def sampleReleases : List GitHubRelease :=
  [⟨(sampleTag 7 (some 2)).text, "", false, false, sampleReleaseAssets⟩,
    ⟨(sampleTag 8 none).text, "", true, false, sampleReleaseAssets⟩]

/-- `v0.1.7.2` and `v0.1.7` are ordered as their versions, and the program `0.1.7` selects the first. -/
theorem tags_and_selection_sample :
    Agree reference (sampleTag 7 (some 2)) (sampleTag 7 none) ∧
      ∃ c, selectLatestCandidate reference sampleReleases .stable ⟨0, 1, 70000, reference.empty⟩ =
        .ok (.ok (some c)) ∧ c.tag = String.ofList (sampleTag 7 (some 2)).text := by
  have hsound := @sampleTag_sound 7 2 (by decide) (by decide)
  obtain ⟨htags, hselect⟩ := tags_and_selection reference reference_lawful
  refine ⟨((htags _).mp hsound.1).2 _ hsound.2, ?_⟩
  -- the draft is passed over
  have hfirst : ∀ r ∈ sampleReleases, Considered .stable r →
      r = ⟨(sampleTag 7 (some 2)).text, "", false, false, sampleReleaseAssets⟩ := by
    intro r hr hconsidered
    rcases List.mem_cons.mp hr with hr | hr
    · exact hr
    · rw [List.mem_singleton.mp hr] at hconsidered
      exact nomatch hconsidered.1
  obtain ⟨result, hresult, hbest, hsome⟩ := hselect .stable ⟨0, 1, 7, reference.empty⟩
    ⟨0, 1, 70000, reference.empty⟩ sampleReleases rfl
    (fun r hr hconsidered => .inl ⟨_, hsound.1, by rw [hfirst r hr hconsidered]⟩)
  have hnewer : currentKey (⟨0, 1, 7, reference.empty⟩ : Version reference) < (sampleTag 7 (some 2)).key := by
    rw [(sampleTag_key 7 2).1, currentKey]
    simp [Prod.Lex.toLex_lt_toLex]
  obtain ⟨c, rfl⟩ := hsome ⟨_, List.mem_cons_self, sampleTag 7 (some 2),
    ⟨⟨rfl, by decide⟩, rfl, hsound.1, hnewer, _, rfl⟩⟩
  obtain ⟨r, hr, t, heligible, htag, -⟩ := hbest c rfl
  rw [hfirst r hr heligible.considered] at htag
  exact ⟨c, hresult, htag⟩

end StreamServer.Updater
