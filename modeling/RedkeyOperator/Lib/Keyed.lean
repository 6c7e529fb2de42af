import Mathlib.Data.Finmap
import Mathlib.Data.List.Nodup
import Mathlib.Data.List.Induction

/-!
# Lists of keyed definitions

A list is read as definitions, each for its key, made one after the other: a later definition
replaces an earlier one for the same key and takes its place. `settle` is what then stands: one
entry for each key, in the order in which the keys first occur, and each the last one for its key.

`settle_concat_known` and `settle_concat_new` say what one more definition changes, which is how a
program that makes the definitions one by one is compared with `settle`. Such a program finds the
place of a key in an index, and `Indexes` is what keeps the index in step.

Definitions made first and made again at the end cannot be changed by what is listed in between
(`settle_protected`).
-/

namespace Keyed

variable {α κ : Type} [DecidableEq κ] (key : α → κ)

/-- The keys of a list, in the order in which they first occur. -/
def keys (l : List α) : List κ := (l.map key).eraseDups

/-- The last entry for a key. -/
def last? (l : List α) (k : κ) : Option α := l.reverse.find? (key · = k)

/-- What a list of definitions comes to: for each key, in the order of the
first definitions, the last definition there is. -/
def settle (l : List α) : List α := (keys key l).filterMap (last? key l)

variable {key}

/-! ## Keys -/

omit [DecidableEq κ] in
/-- Which keys are dropped as repeated does not depend on the others. -/
theorem eraseDups_filter [BEq κ] [LawfulBEq κ] (p : κ → Bool) (ks : List κ) :
    (ks.filter p).eraseDups = ks.eraseDups.filter p := by
  -- from the end, where one more key is kept exactly when it is new
  induction ks using List.reverseRecOn with
  | nil => rfl
  | append_singleton ks k ih =>
      rw [List.filter_append, List.eraseDups_append, List.eraseDups_append, List.filter_append, ih]
      congr 1
      by_cases hp : p k <;> by_cases hk : k ∈ ks <;>
        simp [List.removeAll, List.eraseDups_cons, hp, hk]

theorem mem_keys {l : List α} {k : κ} : k ∈ keys key l ↔ ∃ x ∈ l, key x = k := by
  rw [keys, List.mem_eraseDups, List.mem_map]

/-- The second list adds the keys that are not in the first, in its own
order. -/
theorem keys_append (l m : List α) :
    keys key (l ++ m) = keys key l ++ (keys key m).filter (· ∉ keys key l) := by
  have hremove : (m.map key).removeAll (l.map key) = (m.map key).filter (· ∉ keys key l) := by
    rw [List.removeAll]
    exact List.filter_congr fun k _ => by simp [keys, -List.mem_map]
  rw [keys, List.map_append, List.eraseDups_append, hremove, eraseDups_filter]
  rfl

@[simp]
theorem keys_singleton (x : α) : keys key [x] = [key x] := by
  simp [keys, List.eraseDups_cons]

/-- The first entry has the first place for its key; later entries for it add
nothing. -/
theorem keys_cons (x : α) (l : List α) :
    keys key (x :: l) = key x :: (keys key l).filter (· ≠ key x) := by
  rw [← List.singleton_append, keys_append, keys_singleton]
  simp

/-- Dropping all entries of some keys drops those keys, and leaves the order
of the rest. -/
theorem keys_filter (p : κ → Bool) (l : List α) :
    keys key (l.filter (p ∘ key)) = (keys key l).filter p := by
  rw [keys, ← List.filter_map, eraseDups_filter, keys]

theorem nodup_keys (l : List α) : (keys key l).Nodup := by
  induction l with
  | nil => exact List.nodup_nil
  | cons x l ih =>
      rw [keys_cons]
      refine List.nodup_cons.2 ⟨?_, ih.filter _⟩
      intro hmem
      simp at hmem

theorem keys_of_nodup {l : List α} (h : (l.map key).Nodup) : keys key l = l.map key := by
  induction l with
  | nil => rfl
  | cons x l ih =>
      rcases List.nodup_cons.1 h with ⟨hx, hl⟩
      rw [keys_cons, ih hl, List.map_cons, List.filter_eq_self.2]
      intro k hk
      have : k ≠ key x := fun heq => hx (heq ▸ hk)
      simpa using this

/-! ## Last entries -/

/-- The last entry for a key is one with nothing for the key behind it. -/
theorem last?_eq_some_iff {l : List α} {k : κ} {x : α} : last? key l k = some x ↔
    key x = k ∧ ∃ before after, l = before ++ x :: after ∧ ∀ y ∈ after, key y ≠ k := by
  rw [last?, List.find?_eq_some_iff_append]
  constructor
  · -- the search runs over the reversed list, so its two parts trade places
    rintro ⟨hk, after, before, hl, hafter⟩
    refine ⟨by simpa using hk, before.reverse, after.reverse, ?_, ?_⟩
    · rw [← l.reverse_reverse, hl]
      simp
    · simpa using hafter
  · rintro ⟨hk, before, after, rfl, hafter⟩
    exact ⟨by simpa using hk, after.reverse, before.reverse, by simp, by simpa using hafter⟩

theorem mem_of_last? {l : List α} {k : κ} {x : α} (h : last? key l k = some x) :
    x ∈ l ∧ key x = k := by
  rcases last?_eq_some_iff.1 h with ⟨hk, before, after, rfl, -⟩
  exact ⟨by simp, hk⟩

theorem last?_isSome {l : List α} {k : κ} : (last? key l k).isSome ↔ k ∈ keys key l := by
  simp [last?, mem_keys]

theorem exists_last? {l : List α} {k : κ} (h : k ∈ keys key l) : ∃ x, last? key l k = some x :=
  Option.isSome_iff_exists.1 (last?_isSome.2 h)

theorem last?_eq_none {l : List α} {k : κ} (h : k ∉ keys key l) : last? key l k = none := by
  rw [← Option.not_isSome_iff_eq_none, last?_isSome]
  exact h

/-- Entries of the second list come first, since they stand last. -/
theorem last?_append (l m : List α) (k : κ) :
    last? key (l ++ m) k = (last? key m k).or (last? key l k) := by
  rw [last?, List.reverse_append, List.find?_append]
  rfl

/-- Entries for other keys do not matter. -/
theorem last?_filter {p : κ → Bool} {k : κ} (hk : p k) (l : List α) :
    last? key (l.filter (p ∘ key)) k = last? key l k := by
  rw [last?, ← List.filter_reverse, List.find?_filter, last?]
  congr 1
  funext x
  by_cases hx : key x = k <;> simp [hx, hk]

/-- Where the keys differ, the last entry for a key is the only one. -/
theorem last?_of_nodup {l : List α} (h : (l.map key).Nodup) {k : κ} {x : α} :
    last? key l k = some x ↔ x ∈ l ∧ key x = k := by
  constructor
  · exact mem_of_last?
  · rintro ⟨hmem, rfl⟩
    have hkey : key x ∈ keys key l := mem_keys.2 ⟨x, hmem, rfl⟩
    rcases exists_last? hkey with ⟨y, hy⟩
    rcases mem_of_last? hy with ⟨hymem, hk⟩
    rw [hy, List.inj_on_of_nodup_map h hymem hmem hk]

/-! ## What a list comes to -/

omit [DecidableEq κ] in
/-- Where nothing is dropped, `filterMap` keeps every place. -/
theorem getElem?_filterMap {f : κ → Option α} {ks : List κ} (h : ∀ k ∈ ks, (f k).isSome) (i : ℕ) :
    (ks.filterMap f)[i]? = ks[i]?.bind f := by
  induction ks generalizing i with
  | nil => rfl
  | cons k ks ih =>
      rcases Option.isSome_iff_exists.1 (h k List.mem_cons_self) with ⟨x, hx⟩
      rw [List.filterMap_cons_some hx]
      cases i with
      | zero => simp [hx]
      | succ i => simpa using ih (fun k hk => h k (List.mem_cons_of_mem _ hk)) i

/-- The entry at a place is the last one for the key at that place. With it
two settled lists can be compared place by place. -/
theorem getElem?_settle (l : List α) (i : ℕ) :
    (settle key l)[i]? = (keys key l)[i]?.bind (last? key l) :=
  getElem?_filterMap (fun _ => last?_isSome.2) i

/-- The settled list has the keys of the list, each once and in place. -/
theorem map_settle (l : List α) : (settle key l).map key = keys key l := by
  apply List.ext_getElem?
  intro i
  rw [List.getElem?_map, getElem?_settle]
  cases hk : (keys key l)[i]? with
  | none => rfl
  | some k =>
      rcases exists_last? (List.mem_of_getElem? hk) with ⟨x, hx⟩
      simp [hx, (mem_of_last? hx).2]

theorem nodup_settle (l : List α) : ((settle key l).map key).Nodup := by
  rw [map_settle]
  exact nodup_keys l

/-- An entry stands if it is the last one for its key. -/
theorem mem_settle {l : List α} {x : α} : x ∈ settle key l ↔ last? key l (key x) = some x := by
  rw [settle, List.mem_filterMap]
  constructor
  · rintro ⟨k, -, hx⟩
    rw [(mem_of_last? hx).2]
    exact hx
  · intro hx
    exact ⟨key x, last?_isSome.1 (by simp [hx]), hx⟩

/-- What remains of some of the keys is the last entry for its key in the
whole list. -/
theorem last?_of_mem_settle_filter (p : κ → Bool) (l : List α) {x : α}
    (h : x ∈ settle key (l.filter (p ∘ key))) : last? key l (key x) = some x := by
  have hlast := mem_settle.1 h
  have hp : p (key x) := (List.mem_filter.1 (mem_of_last? hlast).1).2
  rw [← last?_filter hp l]
  exact hlast

/-- A list without repeated keys is settled. -/
theorem settle_of_nodup {l : List α} (h : (l.map key).Nodup) : settle key l = l := by
  apply List.ext_getElem?
  intro i
  rw [getElem?_settle, keys_of_nodup h, List.getElem?_map]
  cases hx : l[i]? with
  | none => rfl
  | some x => exact (last?_of_nodup h).2 ⟨List.mem_of_getElem? hx, rfl⟩

theorem keys_settle (l : List α) : keys key (settle key l) = keys key l := by
  rw [keys_of_nodup (nodup_settle l), map_settle]

/-- Settling does not change what stands for a key. -/
theorem last?_settle (l : List α) (k : κ) : last? key (settle key l) k = last? key l k := by
  ext x
  rw [last?_of_nodup (nodup_settle l), mem_settle]
  constructor
  · rintro ⟨hx, rfl⟩
    exact hx
  · -- the entry has the key it was found for
    intro hx
    have hk := (mem_of_last? hx).2
    exact ⟨hk ▸ hx, hk⟩

/-- Settling first what is listed first changes nothing, so definitions can be
made in any number of rounds. -/
theorem settle_settle_append (l m : List α) :
    settle key (settle key l ++ m) = settle key (l ++ m) := by
  have hkeys : keys key (settle key l ++ m) = keys key (l ++ m) := by
    rw [keys_append, keys_append, keys_settle]
  have hlast : last? key (settle key l ++ m) = last? key (l ++ m) := by
    funext k
    rw [last?_append, last?_append, last?_settle]
  rw [settle, hkeys, hlast, settle]

/-! ## One more definition -/

/-- No new place for a key that has one. -/
theorem keys_concat_known {l : List α} {x : α} (h : key x ∈ keys key l) :
    keys key (l ++ [x]) = keys key l := by
  simp [keys_append, h]

theorem keys_concat_new {l : List α} {x : α} (h : key x ∉ keys key l) :
    keys key (l ++ [x]) = keys key l ++ [key x] := by
  simp [keys_append, h]

/-- The definition made last stands. -/
theorem last?_concat_self (l : List α) (x : α) : last? key (l ++ [x]) (key x) = some x := by
  simp [last?]

theorem last?_concat_of_ne {k : κ} {x : α} (h : k ≠ key x) (l : List α) :
    last? key (l ++ [x]) k = last? key l k := by
  simp [last?, h.symm]

/-- One more definition for a known key goes where the key is. The places of
all other keys stay as they are. -/
theorem settle_concat_known {l : List α} {x : α} {i : ℕ} (h : (keys key l)[i]? = some (key x)) :
    settle key (l ++ [x]) = (settle key l).set i x := by
  -- the place exists in the settled list, which has one entry for each key
  have hlength : i < (settle key l).length := by
    rw [← List.length_map key, map_settle]
    exact (List.getElem?_eq_some_iff.1 h).1
  apply List.ext_getElem?
  intro j
  rw [getElem?_settle, keys_concat_known (List.mem_of_getElem? h), List.getElem?_set]
  by_cases hij : i = j
  · subst hij
    rw [if_pos rfl, if_pos hlength, h]
    exact last?_concat_self l x
  · rw [if_neg hij, getElem?_settle]
    cases hk : (keys key l)[j]? with
    | none => rfl
    | some k =>
        -- the key at another place is another key
        refine last?_concat_of_ne ?_ l
        rintro rfl
        exact hij ((List.getElem?_inj (List.getElem?_eq_some_iff.1 h).1 (nodup_keys l)).1
          (h.trans hk.symm))

/-- One more definition for a new key goes to the end, and changes nothing
before it. -/
theorem settle_concat_new {l : List α} {x : α} (h : key x ∉ keys key l) :
    settle key (l ++ [x]) = settle key l ++ [x] := by
  -- for the keys that were there before, the last entry is what it was
  have hold : (keys key l).filterMap (last? key (l ++ [x])) = settle key l := by
    apply List.filterMap_congr
    intro k hk
    refine last?_concat_of_ne ?_ l
    rintro rfl
    exact h hk
  rw [settle, keys_concat_new h, List.filterMap_append, hold,
    List.filterMap_cons_some (last?_concat_self l x), List.filterMap_nil]

/-! ## Definitions made again -/

/-- Definitions made first and again last stand as they are, and first. -/
theorem settle_protected {d : List α} (h : (d.map key).Nodup) (l : List α) :
    settle key (d ++ l ++ d) = d ++ settle key (l.filter (key · ∉ keys key d)) := by
  have hkeys : keys key (d ++ l ++ d) = keys key d ++ keys key (l.filter (key · ∉ keys key d)) := by
    -- the second time they bring no new key
    have hnone : (keys key d).filter (· ∉ keys key (d ++ l)) = [] := by
      rw [List.filter_eq_nil_iff]
      intro k hk
      simp [keys_append, hk]
    rw [keys_append, hnone, List.append_nil, keys_append, ← keys_filter]
    rfl
  have hfirst : (keys key d).filterMap (last? key (d ++ l ++ d)) = settle key d := by
    apply List.filterMap_congr
    intro k hk
    -- the second time is the last
    rcases exists_last? hk with ⟨x, hx⟩
    rw [last?_append, hx, Option.some_or]
  have hrest : (keys key (l.filter (key · ∉ keys key d))).filterMap (last? key (d ++ l ++ d)) =
      settle key (l.filter (key · ∉ keys key d)) := by
    apply List.filterMap_congr
    intro k hk
    rcases mem_keys.1 hk with ⟨x, hx, rfl⟩
    have hnew : key x ∉ keys key d := by simpa using (List.mem_filter.1 hx).2
    rw [last?_append, last?_append, last?_eq_none hnew, Option.none_or, Option.or_none]
    exact (last?_filter (p := fun k => k ∉ keys key d) (by simpa using hnew) l).symm
  rw [settle, hkeys, List.filterMap_append, hfirst, hrest, settle_of_nodup h]

/-! ## Indexes -/

/-- The index has the place of every key, and nothing else. As each place has
one key, a key that is found under `i` is the key at `i`. -/
def Indexes (index : Finmap fun _ : κ => ℕ) (ks : List κ) : Prop :=
  ∀ k i, index.lookup k = some i ↔ ks[i]? = some k

/-- A key the index does not know has no place. -/
theorem Indexes.notMem {index : Finmap fun _ : κ => ℕ} {ks : List κ} (h : Indexes index ks) {k : κ}
    (hk : index.lookup k = none) : k ∉ ks := by
  intro hmem
  rcases List.mem_iff_getElem?.1 hmem with ⟨i, hi⟩
  rw [(h k i).2 hi] at hk
  cases hk

/-- A new key is entered with the length of the list it is appended to. -/
theorem Indexes.concat {index : Finmap fun _ : κ => ℕ} {ks : List κ} (h : Indexes index ks) {k : κ}
    (hk : k ∉ ks) : Indexes (index.insert k ks.length) (ks ++ [k]) := by
  intro k' i
  by_cases hkk : k' = k
  · subst hkk
    rw [Finmap.lookup_insert]
    grind
  · rw [Finmap.lookup_insert_of_ne _ hkk, h k' i]
    grind

/-- The index that is built in one pass over a list without repeated keys. -/
theorem indexes_zipIdx {l : List α} (h : (l.map key).Nodup) :
    Indexes (l.zipIdx.foldl (fun m e => m.insert (key e.1) e.2) ∅) (l.map key) := by
  induction l using List.reverseRecOn with
  | nil => intro k i; simp
  -- the last entry is entered at the length of what is before it
  | append_singleton l x ih =>
      rw [List.map_append, List.map_singleton] at h ⊢
      rcases List.nodup_append.1 h with ⟨hl, -, hdisjoint⟩
      have hx : key x ∉ l.map key := fun hmem => hdisjoint _ hmem _ (by simp) rfl
      rw [List.zipIdx_append, List.foldl_append]
      simpa using (ih hl).concat hx

end Keyed
