import Mathlib.Data.List.Infix
import Mathlib.Logic.Function.Basic

/-!
# Programs that change files

A tree of files gives each path a directory, a file or nothing.  A program over it is a run in
`EStateM`: it changes the tree and may stop with the place at which it stopped.  The environment may
let every operation fail, and a failing write may leave anything in the file it was writing.

* `FileTree` — the tree, with `contents`, `write`, `copy`, `remove`, `rename`, `createDirAll`.
* `Ends` — what a run ends in, with a rule for each way to build a run.
* `attempt` — an operation that the environment may let fail.
-/

/-- A path, as the names on the way from the root. -/
abbrev FilePath := List String

namespace FilePath

/-- `path.join(name)`, for a name of one component. -/
def join (path : FilePath) (name : String) : FilePath := path ++ [name]

/-- `path.parent()`. -/
def parent (path : FilePath) : Option FilePath := if path = [] then none else some path.dropLast

/-- The last name of a path. -/
def fileName (path : FilePath) : Option String := path.getLast?.filter (· ≠ "..")

theorem join_inj {path path' : FilePath} {name name' : String} :
    path.join name = path'.join name' ↔ path = path' ∧ name = name' := by
  constructor
  · intro h
    obtain ⟨hpath, hname⟩ := List.append_inj' h rfl
    exact ⟨hpath, by simpa using hname⟩
  · intro h
    rw [h.1, h.2]

theorem prefix_join (path : FilePath) (name : String) : path <+: path.join name :=
  List.prefix_append path [name]

end FilePath

/-- What a path leads to. -/
inductive FileNode (β : Type*) where
  | dir
  | file (bytes : β)

/-- The node of each path that there is. -/
abbrev FileTree (β : Type*) := FilePath → Option (FileNode β)

namespace FileTree

variable {β : Type*} {tree tree' : FileTree β} {path path' source target : FilePath} {bytes : β}

/-- The bytes of a file. -/
def contents (tree : FileTree β) (path : FilePath) : Option β :=
  match tree path with
  | some (.file bytes) => some bytes
  | _ => none

/-- Puts bytes into a file, which is made if need be. -/
def write (tree : FileTree β) (path : FilePath) (bytes : β) : Option (FileTree β) :=
  match tree path with
  | some .dir => none
  | _ => some (Function.update tree path (some (.file bytes)))

/-- The file at `target` gets the bytes of the one at `source`. -/
def copy (tree : FileTree β) (source target : FilePath) : Option (FileTree β) :=
  (tree.contents source).bind (tree.write target)

/-- The file at `path` goes; there has to be one. -/
def remove (tree : FileTree β) (path : FilePath) : Option (FileTree β) :=
  (tree.contents path).map fun _ => Function.update tree path none

/-- The file at `source` moves to `target`. -/
def rename (tree : FileTree β) (source target : FilePath) : Option (FileTree β) :=
  (tree.contents source).bind fun bytes => (tree.remove source).bind (·.write target bytes)

/-- Whether a path leads to a file. -/
def isFile (tree : FileTree β) (path : FilePath) : Bool := (tree.contents path).isSome

/-- Makes the directories that are missing on a path. -/
def createDirAll (tree : FileTree β) (path : FilePath) : Option (FileTree β) :=
  if path.inits.any tree.isFile then none
  else some fun p => if p <+: path ∧ (tree p).isNone then some .dir else tree p

/-- Removes what is at a path and below it, but for what is `kept`. -/
def prune (tree : FileTree β) (path : FilePath) (kept : FilePath → Bool) : FileTree β :=
  fun p => if path <+: p ∧ ¬ kept p then none else tree p

/-! ### Contents after an operation -/

theorem contents_eq_some_iff : tree.contents path = some bytes ↔ tree path = some (.file bytes) := by
  unfold contents
  split
  · next b hb => simp [hb]
  · next hb => simpa using hb bytes

theorem contents_update (node : Option (FileNode β)) :
    contents (Function.update tree path node) =
      Function.update tree.contents path (match node with | some (.file b) => some b | _ => none) := by
  funext p
  by_cases hp : p = path
  · subst hp
    simp [contents]
  · simp [contents, Function.update_of_ne hp]

theorem contents_write (h : tree.write path bytes = some tree') :
    tree'.contents = Function.update tree.contents path (some bytes) := by
  unfold write at h
  split at h
  · cases h
  · obtain rfl := Option.some.inj h
    exact contents_update _

theorem contents_copy (h : tree.copy source target = some tree') :
    ∃ bytes, tree.contents source = some bytes ∧
      tree'.contents = Function.update tree.contents target (some bytes) := by
  obtain ⟨bytes, hbytes, hwrite⟩ := Option.bind_eq_some_iff.mp h
  exact ⟨bytes, hbytes, contents_write hwrite⟩

theorem contents_remove (h : tree.remove path = some tree') :
    tree'.contents = Function.update tree.contents path none := by
  obtain ⟨bytes, -, rfl⟩ := Option.map_eq_some_iff.mp h
  exact contents_update _

theorem contents_rename (h : tree.rename source target = some tree') :
    ∃ bytes, tree.contents source = some bytes ∧
      tree'.contents =
        Function.update (Function.update tree.contents source none) target (some bytes) := by
  obtain ⟨bytes, hbytes, h⟩ := Option.bind_eq_some_iff.mp h
  obtain ⟨removed, hremove, hwrite⟩ := Option.bind_eq_some_iff.mp h
  refine ⟨bytes, hbytes, ?_⟩
  rw [contents_write hwrite, contents_remove hremove]

/-- Directories have no contents. -/
theorem contents_createDirAll (h : tree.createDirAll path = some tree') :
    tree'.contents = tree.contents := by
  unfold createDirAll at h
  split at h
  · cases h
  · obtain rfl := Option.some.inj h
    funext p
    by_cases hp : p <+: path ∧ (tree p).isNone
    · simp [contents, hp, Option.isNone_iff_eq_none.mp hp.2]
    · simp only [contents, if_neg hp]

theorem contents_prune {p : FilePath} {kept : FilePath → Bool} (h : path <+: p → kept p) :
    (tree.prune path kept).contents p = tree.contents p := by
  have hsame : tree.prune path kept p = tree p := by
    refine if_neg ?_
    rintro ⟨hbelow, hkept⟩
    exact hkept (h hbelow)
  rw [contents, hsame, contents]

/-! ### Operations that succeed -/

/-- No directory of `tree` has become something else. -/
def KeepsDirs (tree tree' : FileTree β) : Prop := ∀ path, tree path = some .dir → tree' path = some .dir

theorem KeepsDirs.refl (tree : FileTree β) : KeepsDirs tree tree := fun _ h => h

theorem KeepsDirs.trans {tree₁ tree₂ tree₃ : FileTree β} (h₁₂ : KeepsDirs tree₁ tree₂)
    (h₂₃ : KeepsDirs tree₂ tree₃) : KeepsDirs tree₁ tree₃ :=
  fun path h => h₂₃ path (h₁₂ path h)

theorem keepsDirs_update {node : Option (FileNode β)} (h : tree path ≠ some .dir) :
    KeepsDirs tree (Function.update tree path node) := by
  intro p hp
  have hne : p ≠ path := by
    intro he
    exact h (he ▸ hp)
  rwa [Function.update_of_ne hne]

theorem keepsDirs_write (h : tree.write path bytes = some tree') : KeepsDirs tree tree' := by
  unfold write at h
  split at h
  · cases h
  · next hdir =>
    obtain rfl := Option.some.inj h
    exact keepsDirs_update hdir

theorem keepsDirs_copy (h : tree.copy source target = some tree') : KeepsDirs tree tree' := by
  obtain ⟨bytes, -, hwrite⟩ := Option.bind_eq_some_iff.mp h
  exact keepsDirs_write hwrite

theorem keepsDirs_remove (h : tree.remove path = some tree') : KeepsDirs tree tree' := by
  obtain ⟨bytes, hbytes, rfl⟩ := Option.map_eq_some_iff.mp h
  rw [contents_eq_some_iff] at hbytes
  exact keepsDirs_update (by simp [hbytes])

theorem keepsDirs_rename (h : tree.rename source target = some tree') : KeepsDirs tree tree' := by
  obtain ⟨bytes, -, h⟩ := Option.bind_eq_some_iff.mp h
  obtain ⟨removed, hremove, hwrite⟩ := Option.bind_eq_some_iff.mp h
  exact (keepsDirs_remove hremove).trans (keepsDirs_write hwrite)

theorem keepsDirs_createDirAll (h : tree.createDirAll path = some tree') : KeepsDirs tree tree' := by
  unfold createDirAll at h
  split at h
  · cases h
  · obtain rfl := Option.some.inj h
    intro p hp
    simp [hp]

/-- The directories of a path are there once they have been made. -/
theorem dir_createDirAll (h : tree.createDirAll path = some tree') (hp : path' <+: path) :
    tree' path' = some .dir := by
  unfold createDirAll at h
  split at h
  · cases h
  · next hfile =>
    obtain rfl := Option.some.inj h
    cases hnode : tree path' with
    | none => simp [hp, hnode]
    | some node =>
      cases node with
      | dir => simp [hnode]
      | file bytes =>
        refine absurd (List.any_eq_true.mpr ⟨path', (List.mem_inits _ _).mpr hp, ?_⟩) hfile
        simp [isFile, contents, hnode]

/-- Directories that are there can be made again. -/
theorem createDirAll_of_dirs (h : ∀ p, p <+: path → tree p = some .dir) :
    tree.createDirAll path = some tree := by
  have hfile : path.inits.any tree.isFile = false := by
    rw [List.any_eq_false]
    intro p hp
    simp [isFile, contents, h p ((List.mem_inits _ _).mp hp)]
  have hsame : (fun p => if p <+: path ∧ (tree p).isNone then some .dir else tree p) = tree := by
    funext p
    by_cases hp : p <+: path
    · simp [h p hp]
    · simp [hp]
  rw [createDirAll, hfile]
  simpa using hsame

/-- A file is copied over a file. -/
theorem copy_of_contents {bytes' : β} (hsource : tree.contents source = some bytes)
    (htarget : tree.contents target = some bytes') :
    tree.copy source target = some (Function.update tree target (some (.file bytes))) := by
  rw [contents_eq_some_iff] at htarget
  simp [copy, hsource, write, htarget]

end FileTree

/-! ### Runs -/

section Ends

variable {ε σ α δ : Type}

/-- A run from `s` ends well in `ok`, or stops in `error`. -/
def Ends (run : EStateM ε σ α) (s : σ) (ok : α → σ → Prop) (error : ε → σ → Prop) : Prop :=
  match run s with
  | .ok a s' => ok a s'
  | .error e s' => error e s'

variable {run : EStateM ε σ α} {s s' : σ} {ok ok' : α → σ → Prop} {error error' : ε → σ → Prop}

theorem Ends.of_ok {a : α} (h : Ends run s ok error) (hrun : run s = .ok a s') : ok a s' := by
  simpa [Ends, hrun] using h

theorem Ends.of_error {e : ε} (h : Ends run s ok error) (hrun : run s = .error e s') :
    error e s' := by
  simpa [Ends, hrun] using h

theorem Ends.mono (h : Ends run s ok error) (hok : ∀ a s', ok a s' → ok' a s')
    (herror : ∀ e s', error e s' → error' e s') : Ends run s ok' error' := by
  unfold Ends at h ⊢
  split
  · next hrun => exact hok _ _ (by simpa [hrun] using h)
  · next hrun => exact herror _ _ (by simpa [hrun] using h)

/-- The run that ends so may be named. -/
theorem Ends.with_run (h : Ends run s ok error) :
    Ends run s (fun a s' => run s = .ok a s' ∧ ok a s')
      (fun e s' => run s = .error e s' ∧ error e s') := by
  unfold Ends at h ⊢
  split
  · next hrun => exact ⟨hrun, by simpa [hrun] using h⟩
  · next hrun => exact ⟨hrun, by simpa [hrun] using h⟩

theorem ends_bind {next : α → EStateM ε σ δ} {ok : δ → σ → Prop} :
    Ends (run >>= next) s ok error ↔ Ends run s (fun a s' => Ends (next a) s' ok error) error := by
  have hrun : (run >>= next) s = EStateM.bind run next s := rfl
  unfold Ends
  rw [hrun, EStateM.bind]
  cases run s with
  | ok a s' => rfl
  | error e s' => rfl

theorem bind_of_ok {next : α → EStateM ε σ δ} {a : α} (h : run s = .ok a s') :
    (run >>= next) s = next a s' := by
  have hrun : (run >>= next) s = EStateM.bind run next s := rfl
  rw [hrun, EStateM.bind, h]

theorem bind_of_error {next : α → EStateM ε σ δ} {e : ε} (h : run s = .error e s') :
    (run >>= next) s = .error e s' := by
  have hrun : (run >>= next) s = EStateM.bind run next s := rfl
  rw [hrun, EStateM.bind, h]

theorem ends_pure (a : α) : Ends (pure a : EStateM ε σ α) s ok error ↔ ok a s := Iff.rfl

end Ends

/-! ### Operations the environment may let fail -/

namespace FileTree

variable {π β α : Type} {tree tree' : FileTree β} {place : π} {fault : π → Option (Option β)}

/-- What a failing write leaves behind. -/
def spoil (tree : FileTree β) (target : FilePath) (left : Option β) : FileTree β :=
  (left.bind (tree.write target)).getD tree

theorem contents_spoil {target path : FilePath} {left : Option β} (h : path ≠ target) :
    (tree.spoil target left).contents path = tree.contents path := by
  unfold spoil
  cases hleft : left.bind (tree.write target) with
  | none => rfl
  | some written =>
    obtain ⟨bytes, -, hwrite⟩ := Option.bind_eq_some_iff.mp hleft
    rw [Option.getD_some, contents_write hwrite, Function.update_of_ne h]

/-- An operation on the tree that writes to nothing before it succeeds. -/
def attempt (fault : π → Option (Option β)) (place : π) (op : FileTree β → Option (FileTree β)) :
    EStateM π (FileTree β) Unit := fun tree =>
  match fault place with
  | some _ => .error place tree
  | none =>
    match op tree with
    | some tree' => .ok () tree'
    | none => .error place tree

/-- An operation that writes to `target`. -/
def attemptWrite (fault : π → Option (Option β)) (place : π) (target : FilePath)
    (op : FileTree β → Option (FileTree β)) : EStateM π (FileTree β) Unit := fun tree =>
  match fault place with
  | some left => .error place (tree.spoil target left)
  | none =>
    match op tree with
    | some tree' => .ok () tree'
    | none => .error place tree

/-- Finds something out about the tree. -/
def attemptRead (fault : π → Option (Option β)) (place : π) (look : FileTree β → Option α) :
    EStateM π (FileTree β) α := fun tree =>
  match fault place with
  | some _ => .error place tree
  | none =>
    match look tree with
    | some a => .ok a tree
    | none => .error place tree

theorem ends_attempt {op : FileTree β → Option (FileTree β)} {ok : Unit → FileTree β → Prop}
    {error : π → FileTree β → Prop} (hok : ∀ tree', op tree = some tree' → ok () tree')
    (herror : error place tree) : Ends (attempt fault place op) tree ok error := by
  unfold Ends attempt
  cases fault place with
  | some left => exact herror
  | none =>
    cases hop : op tree with
    | none => exact herror
    | some tree' => exact hok tree' hop

theorem ends_attemptWrite {target : FilePath} {op : FileTree β → Option (FileTree β)}
    {ok : Unit → FileTree β → Prop} {error : π → FileTree β → Prop}
    (hok : ∀ tree', op tree = some tree' → ok () tree')
    (herror : ∀ tree', (∀ path ≠ target, tree'.contents path = tree.contents path) →
      error place tree') :
    Ends (attemptWrite fault place target op) tree ok error := by
  unfold Ends attemptWrite
  cases fault place with
  | some left => exact herror _ fun path hpath => contents_spoil hpath
  | none =>
    cases hop : op tree with
    | none => exact herror tree fun path _ => rfl
    | some tree' => exact hok tree' hop

theorem ends_attemptRead {look : FileTree β → Option α} {ok : α → FileTree β → Prop}
    {error : π → FileTree β → Prop} (hok : ∀ a, look tree = some a → ok a tree)
    (herror : error place tree) : Ends (attemptRead fault place look) tree ok error := by
  unfold Ends attemptRead
  cases fault place with
  | some left => exact herror
  | none =>
    cases hlook : look tree with
    | none => exact herror
    | some a => exact hok a hlook

end FileTree
