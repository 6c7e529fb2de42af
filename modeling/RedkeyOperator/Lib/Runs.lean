import Mathlib.Data.List.SplitBy

/-!
# Maximal runs

Some entries of a list carry a label. `runs` cuts the list into maximal blocks of consecutive
entries with one and the same label; an entry without a label stands alone. A labelled block that
another block follows is a run that ended, and the entry that follows it ended it. A labelled block
at the end of the list is still open.

`openRun_concat` and `endedRuns_concat` say what one more entry changes, which is how a program
that reads the entries one by one is compared with the blocks.
-/

namespace Runs

variable {α β : Type} (label : α → Option β)

/-- A block as a run: its label and its first entry. -/
def opened : List α → Option (β × α)
  | [] => none
  | first :: _ => (label first).map (·, first)

/-- A block and the one after it, as a run and the entry that ended it. -/
def ended (p : List α × List α) : Option ((β × α) × α) := do
  let run ← opened label p.1
  let next ← p.2.head?
  some (run, next)

section Blocks

variable {label}

theorem fst_opened (first : α) (g : List α) :
    (opened label (first :: g)).map Prod.fst = label first := by
  cases h : label first <;> simp [opened, h]

theorem opened_append {g m : List α} (h : g ≠ []) : opened label (g ++ m) = opened label g := by
  cases g with
  | nil => exact absurd rfl h
  | cons first g => rfl

theorem ended_append {g g' m : List α} (h : g' ≠ []) :
    ended label (g, g' ++ m) = ended label (g, g') := by
  simp [ended, List.head?_append_of_ne_nil _ h]

end Blocks

variable [DecidableEq β]

/-- `b` carries the label of `a`. An entry without a label is continued by
none. -/
def continues (a b : α) : Bool := (label a).isSome && label a == label b

/-- The maximal blocks. -/
def runs (l : List α) : List (List α) := l.splitBy (continues label)

/-- The run that `l` ends in. -/
def openRun (l : List α) : Option (β × α) := (runs label l).getLast?.bind (opened label)

/-- The runs of `l` that ended, each with the entry that ended it. -/
def endedRuns (l : List α) : List ((β × α) × α) :=
  ((runs label l).zip (runs label l).tail).filterMap (ended label)

variable {label}

/-- The last block of a list, its last entry, and what stands before the
block. -/
theorem exists_last_run (label : α → Option β) {l : List α} (h : l ≠ []) :
    ∃ gs g b, runs label l = gs ++ [g ++ [b]] ∧ l.getLast? = some b := by
  have hruns : runs label l ≠ [] := List.splitBy_ne_nil.2 h
  have hlast : (runs label l).getLast hruns ≠ [] :=
    List.ne_nil_of_mem_splitBy (List.getLast_mem hruns)
  refine ⟨(runs label l).dropLast, ((runs label l).getLast hruns).dropLast,
    ((runs label l).getLast hruns).getLast hlast, ?_, ?_⟩
  · rw [List.dropLast_append_getLast, List.dropLast_append_getLast]
  · -- the last entry of the last block is the last one of the list
    rw [List.getLast?_eq_some_getLast h, ← List.getLast_getLast_splitBy (continues label) h]
    rfl

/-- All entries of a block have the same label. -/
theorem label_eq_of_isChain {a b : α} {g : List α}
    (h : (a :: (g ++ [b])).IsChain fun x y => continues label x y) : label a = label b := by
  induction g generalizing a with
  | nil =>
      have hab := h.rel
      simp only [continues, Bool.and_eq_true, beq_iff_eq] at hab
      exact hab.2
  | cons c g ih =>
      have hac := h.rel
      simp only [continues, Bool.and_eq_true, beq_iff_eq] at hac
      exact hac.2.trans (ih h.tail)

/-- A block has the label of its last entry. -/
theorem fst_opened_of_mem_runs {l g : List α} {b : α} (h : g ++ [b] ∈ runs label l) :
    (opened label (g ++ [b])).map Prod.fst = label b := by
  have hchain : (g ++ [b]).IsChain fun x y => continues label x y :=
    List.isChain_of_mem_splitBy h
  cases g with
  | nil => exact fst_opened b []
  | cons a g => exact (fst_opened a (g ++ [b])).trans (label_eq_of_isChain hchain)

/-- One more entry with the label of the last one: it goes into the last
block. -/
theorem runs_concat_of_continues {l : List α} {gs : List (List α)} {g : List α} {a b : α}
    (hruns : runs label l = gs ++ [g ++ [b]]) (h : continues label b a) :
    runs label (l ++ [a]) = gs ++ [g ++ [b] ++ [a]] := by
  rcases List.splitBy_eq_iff.1 hruns with ⟨hl, hnil, hchain, hbreaks⟩
  refine List.splitBy_eq_iff.2 ⟨by simp [hl], by simp_all, ?_, ?_⟩
  · -- the last block is still a chain
    intro m hm
    rcases List.mem_append.1 hm with hm | hm
    · exact hchain m (List.mem_append_left _ hm)
    · rw [List.mem_singleton] at hm
      rw [hm]
      have hlast := hchain (g ++ [b]) (List.mem_append_right _ (by simp))
      refine List.IsChain.append hlast (List.isChain_singleton a) ?_
      simpa using h
  · -- the block only grew at its end, so the break before it is where it was
    rw [List.isChain_append] at hbreaks ⊢
    refine ⟨hbreaks.1, List.isChain_singleton _, ?_⟩
    intro x hx y hy
    rcases hbreaks.2.2 x hx (g ++ [b]) (by simp) with ⟨hx', hg, hbreak⟩
    cases Option.some.inj hy
    exact ⟨hx', by simp, by rwa [List.head_append_of_ne_nil hg]⟩

theorem runs_concat_of_not_continues {l : List α} {a : α}
    (h : ∀ b, l.getLast? = some b → continues label b a = false) :
    runs label (l ++ [a]) = runs label l ++ [[a]] := by
  rcases List.eq_nil_or_concat l with rfl | ⟨l, b, rfl⟩
  · rfl
  · -- the two lists do not meet in one block
    rw [runs, List.splitBy_append]
    · rfl
    · simpa using h

/-! ## One more entry -/

/-- The pairs of neighbours in a list that grows at its end. -/
theorem zip_tail_concat {γ : Type} (l : List γ) (x y : γ) :
    (l ++ [x, y]).zip (l ++ [x, y]).tail = (l ++ [x]).zip (l ++ [x]).tail ++ [(x, y)] := by
  induction l with
  | nil => rfl
  | cons a l ih => cases l <;> simp_all

/-- The open run has the label of the last entry. -/
theorem fst_openRun (label : α → Option β) (l : List α) :
    (openRun label l).map Prod.fst = l.getLast?.bind label := by
  rcases eq_or_ne l [] with rfl | hl
  · rfl
  · rcases exists_last_run label hl with ⟨gs, g, b, hruns, hlast⟩
    have hmem : g ++ [b] ∈ runs label l := by simp [hruns]
    rw [openRun, hruns, hlast, List.getLast?_concat]
    exact fst_opened_of_mem_runs hmem

/-- The open run has the label of its first entry. -/
theorem label_openRun {l : List α} {run : β × α} (h : openRun label l = some run) :
    label run.2 = some run.1 := by
  rcases Option.bind_eq_some_iff.1 h with ⟨_ | ⟨first, g⟩, -, hrun⟩
  · cases hrun
  · rcases Option.map_eq_some_iff.1 hrun with ⟨b, hb, rfl⟩
    exact hb

/-- An entry with the label of the open run goes into its block. -/
theorem exists_run_concat {l : List α} {a : α} {run : β × α} (hopen : openRun label l = some run)
    (ha : label a = some run.1) :
    ∃ gs g, g ≠ [] ∧ runs label l = gs ++ [g] ∧ runs label (l ++ [a]) = gs ++ [g ++ [a]] := by
  have hlabel := fst_openRun label l
  rw [hopen, Option.map_some] at hlabel
  rcases eq_or_ne l [] with rfl | hl
  · cases hlabel
  · rcases exists_last_run label hl with ⟨gs, g, b, hruns, hlast⟩
    rw [hlast, Option.bind_some] at hlabel
    have hcont : continues label b a := by simp [continues, ← hlabel, ha]
    exact ⟨gs, g ++ [b], by simp, hruns, runs_concat_of_continues hruns hcont⟩

/-- Any other entry starts a block. -/
theorem runs_concat {l : List α} {a : α}
    (h : ∀ run, openRun label l = some run → label a ≠ some run.1) :
    runs label (l ++ [a]) = runs label l ++ [[a]] := by
  refine runs_concat_of_not_continues fun b hlast => ?_
  have hlabel := fst_openRun label l
  rw [hlast, Option.bind_some] at hlabel
  cases hopen : openRun label l with
  | none => simp [continues, ← hlabel, hopen]
  | some run => simpa [continues, ← hlabel, hopen] using (h run hopen).symm

/-- A run goes on with an entry of its label. -/
theorem openRun_concat_same {l : List α} {a : α} {run : β × α} (hopen : openRun label l = some run)
    (ha : label a = some run.1) : openRun label (l ++ [a]) = some run := by
  rcases exists_run_concat hopen ha with ⟨gs, g, hg, hruns, hruns'⟩
  rw [openRun, hruns, List.getLast?_concat] at hopen
  rw [openRun, hruns', List.getLast?_concat]
  exact (opened_append hg).trans hopen

/-- No run ends with an entry of its own label. -/
theorem endedRuns_concat_same {l : List α} {a : α} {run : β × α}
    (hopen : openRun label l = some run) (ha : label a = some run.1) :
    endedRuns label (l ++ [a]) = endedRuns label l := by
  rcases exists_run_concat hopen ha with ⟨gs, g, hg, hruns, hruns'⟩
  rw [endedRuns, endedRuns, hruns, hruns']
  rcases List.eq_nil_or_concat gs with rfl | ⟨gs, g', rfl⟩
  · rfl
  · -- only the last pair of blocks has changed, and the same entry ends its run
    simp [zip_tail_concat, List.filterMap_cons, ended_append hg]

/-- With any other entry a run starts, if the entry has a label at all. -/
theorem openRun_concat {l : List α} {a : α}
    (h : ∀ run, openRun label l = some run → label a ≠ some run.1) :
    openRun label (l ++ [a]) = (label a).map (·, a) := by
  rw [openRun, runs_concat h, List.getLast?_concat]
  rfl

theorem endedRuns_concat {l : List α} {a : α}
    (h : ∀ run, openRun label l = some run → label a ≠ some run.1) :
    endedRuns label (l ++ [a]) =
      endedRuns label l ++ ((openRun label l).map (·, a)).toList := by
  rw [endedRuns, runs_concat h, endedRuns, openRun]
  rcases List.eq_nil_or_concat (runs label l) with hruns | ⟨gs, g, hruns⟩
  · rw [hruns]
    rfl
  · rw [hruns]
    cases hopened : opened label g <;> simp [zip_tail_concat, ended, hopened]

end Runs
