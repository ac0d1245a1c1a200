import Mathlib.Data.List.AList
import Mathlib.Data.Set.Lattice
import Mathlib.Data.List.Induction
import Mathlib.Data.List.Lattice

/-!
# Hash tables as association lists, and reducing their values

A hash table is modelled by Mathlib's `AList`: entries with pairwise distinct
keys.  A program can look keys up, insert, erase, and *iterate*; the order of an
iteration is not specified, so a function that iterates is modelled with that
order as an argument, and what it computes is described by facts about the *set*
of values seen, which the order cannot influence.

## Main definitions

* `AList.values`, `AList.mapValues` — the values, and a change of every value.
* `AList.collect` — a table filled from a sequence, the last entry of a key
  winning.
* `List.reduce?` — the fold of a nonempty list by a binary operation.

## Main results

* `AList.mem_values` — the values are what the keys look up.
* `AList.lookup_collect` — a collected table holds the last value of each key.
* `List.reduce?_induction` — **what a reduction returns**, for any relation
  between sets and values that the operation carries along unions.
-/

universe u v w

namespace List

variable {α : Type u}

/-- Fold a list by a binary operation, starting from its head. -/
def reduce? (f : α → α → α) : List α → Option α
  | [] => none
  | a :: l => some (l.foldl f a)

@[simp] theorem reduce?_nil (f : α → α → α) : ([] : List α).reduce? f = none := rfl

theorem reduce?_eq_none {f : α → α → α} {l : List α} : l.reduce? f = none ↔ l = [] := by
  cases l <;> simp [reduce?]

/-- **What a reduction returns.**  If singletons are related to their element,
and the operation carries the relation along unions, then the reduction of a
list is related to the set of its elements. -/
theorem reduce?_induction {f : α → α → α} {R : Set α → α → Prop}
    (hone : ∀ a, R {a} a) (hunion : ∀ s t a b, R s a → R t b → R (s ∪ t) (f a b))
    {l : List α} {r : α} (h : l.reduce? f = some r) : R {x | x ∈ l} r := by
  cases l with
  | nil => cases h
  | cons a l =>
    have key : ∀ (l : List α) (s : Set α) (b : α), R s b →
        R (s ∪ {x | x ∈ l}) (l.foldl f b) := by
      intro l
      induction l with
      | nil => intro s b hb; simpa using hb
      | cons c l ih =>
        intro s b hb
        have hset : s ∪ {x | x ∈ c :: l} = s ∪ {c} ∪ {x | x ∈ l} := by
          ext x
          simp only [Set.mem_union, Set.mem_singleton_iff, Set.mem_ofPred_eq, List.mem_cons]
          tauto
        rw [hset, List.foldl_cons]
        exact ih (s ∪ {c}) (f b c) (hunion s {c} b c hb (hone c))
    have hr : l.foldl f a = r := by simpa [reduce?] using h
    have hset : {x | x ∈ a :: l} = {a} ∪ {x | x ∈ l} := by
      ext x
      simp
    rw [hset, ← hr]
    exact key l {a} a (hone a)

end List

namespace AList

variable {κ : Type u} {β : Type v}

/-- The values of a table, in the order of its entries. -/
def values (m : AList fun _ : κ => β) : List β := m.entries.map Sigma.snd

/-- Change every value of a table. -/
def mapValues (f : β → β) (m : AList fun _ : κ => β) : AList fun _ : κ => β where
  entries := m.entries.map fun e => ⟨e.1, f e.2⟩
  nodupKeys := by
    have h := m.nodupKeys
    rw [List.NodupKeys, List.keys] at h ⊢
    simpa [List.map_map, Function.comp_def] using h

@[simp] theorem mapValues_empty (f : β → β) :
    (∅ : AList fun _ : κ => β).mapValues f = ∅ := rfl

variable [DecidableEq κ]

theorem mem_values {m : AList fun _ : κ => β} {b : β} :
    b ∈ m.values ↔ ∃ k, m.lookup k = some b := by
  simp only [values, List.mem_map]
  constructor
  · rintro ⟨⟨k, b'⟩, he, rfl⟩
    exact ⟨k, mem_lookup_iff.mpr he⟩
  · rintro ⟨k, hk⟩
    exact ⟨⟨k, b⟩, mem_lookup_iff.mp hk, rfl⟩

theorem lookup_mapValues (f : β → β) (m : AList fun _ : κ => β) (k : κ) :
    (m.mapValues f).lookup k = (m.lookup k).map f := by
  apply Option.ext
  intro b
  rw [← Option.mem_def, mem_lookup_iff, Option.map_eq_some_iff]
  simp only [mapValues, List.mem_map, Sigma.mk.injEq, heq_eq_eq]
  constructor
  · rintro ⟨⟨k', b'⟩, he, rfl, rfl⟩
    exact ⟨b', mem_lookup_iff.mpr he, rfl⟩
  · rintro ⟨b', hb', rfl⟩
    exact ⟨⟨k, b'⟩, mem_lookup_iff.mp hb', rfl, rfl⟩

theorem lookup_insert_eq_ite (k k' : κ) (b : β) (m : AList fun _ : κ => β) :
    (m.insert k b).lookup k' = if k' = k then some b else m.lookup k' := by
  by_cases h : k' = k
  · subst h; simp
  · rw [lookup_insert_ne h, if_neg h]

theorem lookup_erase_eq_ite (k k' : κ) (m : AList fun _ : κ => β) :
    (m.erase k).lookup k' = if k' = k then none else m.lookup k' := by
  by_cases h : k' = k
  · subst h; simp
  · rw [lookup_erase_ne h, if_neg h]

/-- The table filled from a sequence of values, each under its own key; of two
values with one key the later stays. -/
def collect (key : β → κ) (l : List β) : AList fun _ : κ => β :=
  l.foldl (fun m b => m.insert (key b) b) ∅

theorem collect_concat (key : β → κ) (l : List β) (b : β) :
    collect key (l ++ [b]) = (collect key l).insert (key b) b := by
  simp [collect, List.foldl_append]

/-- **What a collected table holds**: under each key, the last value of the
sequence with that key. -/
theorem lookup_collect (key : β → κ) (l : List β) (k : κ) :
    (collect key l).lookup k = (l.filter fun b => key b = k).getLast? := by
  induction l using List.reverseRecOn with
  | nil => simp [collect]
  | append_singleton l b ih =>
    rw [collect_concat, lookup_insert_eq_ite, List.filter_append]
    by_cases h : key b = k
    · simp [h]
    · simp [h, Ne.symm h, ih]

end AList
