import Mathlib.Data.List.Basic
import Mathlib.Data.List.DropRight
import Mathlib.Tactic.Common
import PushIT.Library.Words

/-!
# Paragraphs

The runs of a list are its longest parts without a member that meets a condition: the words of a
line, when the condition is to be a space, and the paragraphs of a list of lines, when it is to be
blank.  A text is laid out with one separator between the lines of a paragraph and two between
paragraphs; this is what is left of joined lines when the ends are trimmed and no more than two
separators may follow one another.

## Main definitions

* `Runs.runs`: the runs of a list.
* `Paragraphs.layOut`: the text of a list of paragraphs.
* `Paragraphs.capRuns`: a text in which at most so many separators follow one another.

## Main results

* `Runs.runs_append_cons`: a separator divides the runs of a list.
* `Runs.runs_intercalate`: the runs of a list that is put together from runs.
* `Paragraphs.capRuns_trim`: joined lines, trimmed and capped, are their paragraphs laid out.
-/

namespace Runs

/-- Lists without separators, and those that a first separator divides. -/
@[elab_as_elim]
theorem split_induction {α : Type*} {P : List α → Prop} (p : α → Bool)
    (plain : ∀ l, (∀ x ∈ l, p x = false) → P l)
    (split : ∀ l a l', (∀ x ∈ l, p x = false) → p a = true → P l' → P (l ++ a :: l'))
    (l : List α) : P l := by
  have hall : ∀ front, (∀ x ∈ front, p x = false) → P (front ++ l) := by
    induction l with
    | nil =>
      intro front hfront
      rw [List.append_nil]
      exact plain front hfront
    | cons a l ih =>
      intro front hfront
      cases ha : p a with
      | true => exact split front a l hfront ha (ih [] (by simp))
      | false =>
        have hnext := ih (front ++ [a]) fun x hx =>
          (List.mem_append.mp hx).elim (hfront x) fun hxa => List.mem_singleton.mp hxa ▸ ha
        rwa [List.append_assoc] at hnext
  exact hall [] (by simp)

variable {α : Type*} [BEq α]

/-- The longest parts of a list without a member that meets a condition. -/
def runs (p : α → Bool) (l : List α) : List (List α) := (l.splitOnP p).filter (· != [])

variable {p : α → Bool} {a b : α} {l l' blank : List α} {rs : List (List α)}

/-- A separator divides the runs. -/
theorem runs_append_cons (ha : p a = true) : runs p (l ++ a :: l') = runs p l ++ runs p l' := by
  simp [runs, List.splitOnP_append_cons _ _ ha]

variable [LawfulBEq α]

@[simp]
theorem runs_nil : runs p [] = [] := by simp [runs]

@[simp]
theorem runs_cons (ha : p a = true) : runs p (a :: l) = runs p l := by
  have h : runs p ([] ++ a :: l) = _ := runs_append_cons ha
  simpa using h

theorem runs_eq_singleton (h : ∀ x ∈ l, p x = false) (hne : l ≠ []) : runs p l = [l] := by
  simp [runs, List.splitOnP_eq_singleton h, hne]

/-- Separators in front of a list do not matter. -/
theorem runs_blank_append (h : ∀ x ∈ blank, p x = true) : runs p (blank ++ l) = runs p l := by
  induction blank with
  | nil => rfl
  | cons x blank ih =>
    rw [List.cons_append, runs_cons (h x List.mem_cons_self),
      ih fun y hy => h y (List.mem_cons_of_mem x hy)]

/-- Separators after a list do not matter. -/
theorem runs_append_blank (h : ∀ x ∈ blank, p x = true) : runs p (l ++ blank) = runs p l := by
  cases blank with
  | nil => rw [List.append_nil]
  | cons x blank =>
    have hblank : runs p blank = [] := by
      simpa using runs_blank_append (l := []) fun y hy => h y (List.mem_cons_of_mem x hy)
    rw [runs_append_cons (h x List.mem_cons_self), hblank, List.append_nil]

/-- Two members that are no separators stand in one run. -/
theorem runs_cons_cons (ha : p a = false) (hb : p b = false) :
    ∃ r rs, runs p (b :: l) = r :: rs ∧ runs p (a :: b :: l) = (a :: r) :: rs := by
  have hsplit : ∀ x xs, p x = false →
      ∃ r rest, List.splitOnP p xs = r :: rest ∧ List.splitOnP p (x :: xs) = (x :: r) :: rest := by
    intro x xs hx
    obtain ⟨r, rest, hr⟩ := List.exists_cons_of_ne_nil (List.splitOnP_ne_nil p xs)
    refine ⟨r, rest, hr, ?_⟩
    rw [List.splitOnP_cons_eq_if_modifyHead, if_neg (by simp [hx]), hr, List.modifyHead_cons]
  obtain ⟨r, rest, -, hb'⟩ := hsplit b l hb
  obtain ⟨r', rest', hr', ha'⟩ := hsplit a (b :: l) ha
  obtain ⟨rfl, rfl⟩ := List.cons.inj (hb'.symm.trans hr')
  exact ⟨b :: r, rest.filter (· != []), by simp [runs, hb'], by simp [runs, ha']⟩

/-- A run holds a member, and none that is a separator. -/
theorem mem_runs {r : List α} (h : r ∈ runs p l) : r ≠ [] ∧ ∀ x ∈ r, p x = false := by
  induction l using split_induction p with
  | plain l hl =>
    cases l with
    | nil => simp at h
    | cons a l =>
      rw [runs_eq_singleton hl (List.cons_ne_nil a l), List.mem_singleton] at h
      exact h ▸ ⟨List.cons_ne_nil a l, hl⟩
  | split l a l' hl ha ih =>
    rw [runs_append_cons ha, List.mem_append] at h
    refine h.elim (fun hfront => ?_) ih
    cases l with
    | nil => simp at hfront
    | cons b l =>
      rw [runs_eq_singleton hl (List.cons_ne_nil b l), List.mem_singleton] at hfront
      exact hfront ▸ ⟨List.cons_ne_nil b l, hl⟩

/-- The runs hold the members that are no separators. -/
theorem flatten_runs (l : List α) : (runs p l).flatten = l.filter (!p ·) := by
  have hplain : ∀ l : List α, (∀ x ∈ l, p x = false) → (runs p l).flatten = l.filter (!p ·) := by
    intro l hl
    rw [List.filter_eq_self.mpr fun x hx => by simp [hl x hx]]
    cases l with
    | nil => simp
    | cons a l => rw [runs_eq_singleton hl (List.cons_ne_nil a l), List.flatten_singleton]
  induction l using split_induction p with
  | plain l hl => exact hplain l hl
  | split l a l' hl ha ih =>
    rw [runs_append_cons ha, List.flatten_append, hplain l hl, ih, List.filter_append,
      List.filter_cons_of_neg (by simp [ha])]

theorem runs_ne_nil (ha : a ∈ l) (hp : p a = false) : runs p l ≠ [] := by
  intro hnil
  have hflat := flatten_runs (p := p) l
  rw [hnil, List.flatten_nil] at hflat
  have hmem : a ∈ l.filter (!p ·) := List.mem_filter.mpr ⟨ha, by simp [hp]⟩
  rw [← hflat] at hmem
  exact List.not_mem_nil hmem

theorem runs_trim (l : List α) : runs p (Ends.trim p l) = runs p l := by
  have hfront : ∀ x ∈ l.takeWhile p, p x = true := fun x hx => List.mem_takeWhile_imp hx
  have hback : ∀ x ∈ (l.dropWhile p).rtakeWhile p, p x = true := fun x hx =>
    List.mem_rtakeWhile_imp hx
  calc runs p (Ends.trim p l)
      = runs p (Ends.trim p l ++ (l.dropWhile p).rtakeWhile p) := (runs_append_blank hback).symm
    _ = runs p (l.dropWhile p) := by rw [Ends.trim, List.rdropWhile_append_rtakeWhile]
    _ = runs p (l.takeWhile p ++ l.dropWhile p) := (runs_blank_append hfront).symm
    _ = runs p l := by rw [List.takeWhile_append_dropWhile]

/-- Runs that are put together with a separator between them are found again. -/
theorem runs_intercalate (ha : p a = true) (h : ∀ r ∈ rs, r ≠ [] ∧ ∀ x ∈ r, p x = false) :
    runs p ([a].intercalate rs) = rs := by
  induction rs with
  | nil => simp
  | cons r rs ih =>
    obtain ⟨⟨hne, hr⟩, hrest⟩ := List.forall_mem_cons.mp h
    cases rs with
    | nil => rw [List.intercalate_singleton, runs_eq_singleton hr hne]
    | cons next rs =>
      have hjoined :
          [a].intercalate (r :: next :: rs) = r ++ a :: [a].intercalate (next :: rs) := by
        rw [List.intercalate_cons_cons]
        simp
      rw [hjoined, runs_append_cons ha, runs_eq_singleton hr hne, ih hrest, List.singleton_append]

end Runs

namespace Paragraphs

open Runs

/-- The text of a list of paragraphs, each a list of lines. -/
def layOut {α : Type*} (nl : α) (ps : List (List (List α))) : List α :=
  [nl, nl].intercalate (ps.map [nl].intercalate)

section Joining

variable {α : Type*} {p : α → Bool} {nl : α} {ps : List (List (List α))} {ls : List (List α)}
  {l : List α}

theorem intercalate_cons_ne_nil (hne : ls ≠ []) :
    [nl].intercalate (l :: ls) = l ++ nl :: [nl].intercalate ls := by
  rw [List.intercalate_cons_of_ne_nil hne]
  simp

@[simp]
theorem layOut_nil : layOut nl ([] : List (List (List α))) = [] := rfl

@[simp]
theorem layOut_singleton : layOut nl [ls] = [nl].intercalate ls :=
  List.intercalate_singleton

theorem layOut_cons_cons (hne : ls ≠ []) :
    layOut nl ((l :: ls) :: ps) = l ++ nl :: layOut nl (ls :: ps) := by
  cases ps with
  | nil => rw [layOut_singleton, layOut_singleton, intercalate_cons_ne_nil hne]
  | cons q ps =>
    simp [layOut, List.intercalate_cons_cons, intercalate_cons_ne_nil hne]

theorem layOut_cons (hne : ps ≠ []) :
    layOut nl (ls :: ps) = [nl].intercalate ls ++ nl :: nl :: layOut nl ps := by
  rw [layOut, List.map_cons, List.intercalate_cons_of_ne_nil (by simpa using hne)]
  simp [layOut]

/-- Two texts, one after the other. -/
theorem layOut_append {ps' : List (List (List α))} (hne : ps ≠ []) (hne' : ps' ≠ []) :
    layOut nl (ps ++ ps') = layOut nl ps ++ nl :: nl :: layOut nl ps' := by
  induction ps with
  | nil => exact absurd rfl hne
  | cons q ps ih =>
    rw [List.cons_append, layOut_cons (by simp [hne'])]
    cases ps with
    | nil => rw [layOut_singleton, List.nil_append]
    | cons q' ps =>
      rw [ih (List.cons_ne_nil q' ps), layOut_cons (List.cons_ne_nil q' ps)]
      simp

/-- The text of paragraphs is that of their lines, with a blank one between paragraphs. -/
theorem layOut_eq (h : ∀ q ∈ ps, q ≠ []) :
    layOut nl ps = [nl].intercalate ([[]].intercalate ps) := by
  induction ps with
  | nil => rfl
  | cons q ps ih =>
    obtain ⟨hq, hps⟩ := List.forall_mem_cons.mp h
    cases ps with
    | nil => rw [layOut_singleton, List.intercalate_singleton]
    | cons q' ps =>
      have hne : [[]].intercalate (q' :: ps) ≠ [] := by
        obtain ⟨l, q', rfl⟩ := List.exists_cons_of_ne_nil (List.forall_mem_cons.mp hps).1
        cases ps <;> simp
      rw [layOut_cons (List.cons_ne_nil q' ps), ih hps,
        intercalate_cons_ne_nil (List.cons_ne_nil q' ps),
        Labels.intercalate_append hq (List.cons_ne_nil [] _), intercalate_cons_ne_nil hne,
        List.nil_append]

theorem mem_intercalate {a : α} (h : a ∈ [nl].intercalate ls) : a = nl ∨ ∃ l ∈ ls, a ∈ l := by
  induction ls with
  | nil => simp at h
  | cons l ls ih =>
    cases ls with
    | nil => exact Or.inr ⟨l, List.mem_cons_self, by simpa using h⟩
    | cons next ls =>
      rw [intercalate_cons_ne_nil (List.cons_ne_nil next ls), List.mem_append, List.mem_cons] at h
      obtain hl | rfl | hrest := h
      · exact Or.inr ⟨l, List.mem_cons_self, hl⟩
      · exact Or.inl rfl
      · exact (ih hrest).imp_right fun ⟨l', hl', hc⟩ => ⟨l', List.mem_cons_of_mem l hl', hc⟩

theorem head?_intercalate (hne : l ≠ []) : ([nl].intercalate (l :: ls)).head? = l.head? := by
  obtain ⟨a, l, rfl⟩ := List.exists_cons_of_ne_nil hne
  cases ls <;> simp [List.intercalate_cons_cons]

theorem getLast?_intercalate (hne : l ≠ []) :
    ([nl].intercalate (ls ++ [l])).getLast? = l.getLast? := by
  cases ls with
  | nil => simp
  | cons l' ls =>
    rw [Labels.intercalate_append (List.cons_ne_nil l' ls) (List.cons_ne_nil l []),
      List.intercalate_singleton, List.getLast?_append]
    obtain ⟨a, l, rfl⟩ := List.exists_cons_of_ne_nil hne
    simp [List.getLast?_cons]

/-- Trimmed lines, joined, are trimmed when the first and the last are not blank. -/
theorem trimmed_lines (hends : Ends.Trimmed List.isEmpty ls) (h : ∀ l ∈ ls, Ends.Trimmed p l) :
    Ends.Trimmed p ([nl].intercalate ls) where
  head a ha := by
    cases ls with
    | nil => simp at ha
    | cons l ls =>
      have hne : l ≠ [] := by simpa using hends.head l rfl
      rw [head?_intercalate hne] at ha
      exact (h l List.mem_cons_self).head a ha
  last a ha := by
    cases ls using List.reverseRecOn with
    | nil => simp at ha
    | append_singleton ls l =>
      have hne : l ≠ [] := by simpa using hends.last l (by simp)
      rw [getLast?_intercalate hne] at ha
      exact (h l (by simp)).last a ha

/-- Joined runs have no separator at an end. -/
theorem trimmed_intercalate (h : ∀ l ∈ ls, l ≠ [] ∧ ∀ x ∈ l, p x = false) :
    Ends.Trimmed p ([nl].intercalate ls) := by
  refine trimmed_lines ⟨fun l hl => ?_, fun l hl => ?_⟩ fun l hl => ⟨fun a ha => ?_, fun a ha => ?_⟩
  · simpa using (h l (List.mem_of_mem_head? hl)).1
  · simpa using (h l (List.mem_of_getLast? hl)).1
  · exact (h l hl).2 a (List.mem_of_mem_head? ha)
  · exact (h l hl).2 a (List.mem_of_getLast? ha)

/-- Trimmed lines, joined and trimmed, are the lines without the blank ones at the ends. -/
theorem dropWhile_intercalate (hsep : p nl = true) (h : ∀ l ∈ ls, Ends.Trimmed p l) :
    ([nl].intercalate ls).dropWhile p = [nl].intercalate (ls.dropWhile List.isEmpty) := by
  induction ls with
  | nil => rfl
  | cons l ls ih =>
    obtain ⟨hl, hls⟩ := List.forall_mem_cons.mp h
    cases l with
    | nil =>
      rw [List.dropWhile_cons_of_pos rfl, ← ih hls]
      cases ls with
      | nil => rfl
      | cons next ls =>
        rw [intercalate_cons_ne_nil (List.cons_ne_nil next ls), List.nil_append,
          List.dropWhile_cons_of_pos hsep]
    | cons a l =>
      have ha : ¬p a = true := by simp [hl.head a rfl]
      rw [List.dropWhile_cons_of_neg (by simp)]
      cases ls with
      | nil => rw [List.intercalate_singleton, List.dropWhile_cons_of_neg ha]
      | cons next ls =>
        rw [intercalate_cons_ne_nil (List.cons_ne_nil next ls), List.cons_append,
          List.dropWhile_cons_of_neg ha]

theorem rdropWhile_intercalate (hsep : p nl = true) (h : ∀ l ∈ ls, Ends.Trimmed p l) :
    ([nl].intercalate ls).rdropWhile p = [nl].intercalate (ls.rdropWhile List.isEmpty) := by
  induction ls using List.reverseRecOn with
  | nil => rfl
  | append_singleton ls l ih =>
    have hls : ∀ l' ∈ ls, Ends.Trimmed p l' := fun l' hl' => h l' (List.mem_append_left _ hl')
    have hl : Ends.Trimmed p l := h l (by simp)
    cases hnil : l.isEmpty with
    | true =>
      obtain rfl := List.isEmpty_iff.mp hnil
      rw [List.rdropWhile_concat_pos _ _ _ hnil, ← ih hls]
      cases ls with
      | nil => rfl
      | cons l' ls =>
        rw [Labels.intercalate_append (List.cons_ne_nil l' ls) (List.cons_ne_nil [] []),
          List.intercalate_singleton, List.rdropWhile_concat_pos _ _ _ hsep]
    | false =>
      rw [List.rdropWhile_concat_neg _ _ _ (by simp [hnil])]
      refine List.rdropWhile_eq_self_iff.mpr fun hne => ?_
      have hlne : l ≠ [] := by simpa using hnil
      have hmem := hl.last _ (getLast?_intercalate hlne ▸ List.getLast?_eq_some_getLast hne)
      simp [hmem]

end Joining

variable {α : Type*} [DecidableEq α]

/-- A text in which at most `limit` separators follow one another, and `room` may come first. -/
def capRuns (nl : α) (limit : ℕ) : ℕ → List α → List α
  | _, [] => []
  | 0, a :: l => if a = nl then capRuns nl limit 0 l else a :: capRuns nl limit limit l
  | room + 1, a :: l =>
    if a = nl then a :: capRuns nl limit room l else a :: capRuns nl limit limit l

variable {nl a : α} {limit room : ℕ} {l l' : List α} {ls : List (List α)}

@[simp]
theorem capRuns_nil : capRuns nl limit room [] = [] := by cases room <;> rfl

@[simp]
theorem capRuns_zero : capRuns nl limit 0 (nl :: l) = capRuns nl limit 0 l := if_pos rfl

@[simp]
theorem capRuns_succ : capRuns nl limit (room + 1) (nl :: l) = nl :: capRuns nl limit room l :=
  if_pos rfl

theorem capRuns_cons (ha : a ≠ nl) :
    capRuns nl limit room (a :: l) = a :: capRuns nl limit limit l := by
  cases room <;> exact if_neg ha

theorem capRuns_append (h : nl ∉ l) (hne : l ≠ []) :
    capRuns nl limit room (l ++ l') = l ++ capRuns nl limit limit l' := by
  induction l generalizing room with
  | nil => exact absurd rfl hne
  | cons a l ih =>
    have ha : a ≠ nl := fun heq => h (heq ▸ List.mem_cons_self)
    rw [List.cons_append, capRuns_cons ha, List.cons_append]
    cases l with
    | nil => rfl
    | cons b l => rw [ih (fun hmem => h (List.mem_cons_of_mem a hmem)) (List.cons_ne_nil b l)]

/-- How many separators may come first matters only where one does. -/
theorem capRuns_room (h : ∀ a ∈ l.head?, a ≠ nl) (room' : ℕ) :
    capRuns nl limit room l = capRuns nl limit room' l := by
  cases l with
  | nil => rw [capRuns_nil, capRuns_nil]
  | cons a l => rw [capRuns_cons (h a rfl), capRuns_cons (h a rfl)]

/-- Joined lines of which the last is not blank, with no more than two separators in a row. -/
theorem capRuns_intercalate (hclean : ∀ l ∈ ls, nl ∉ l) (hlast : ∀ l ∈ ls.getLast?, l ≠ []) :
    capRuns nl 2 0 ([nl].intercalate ls) = layOut nl (runs List.isEmpty ls) := by
  induction ls with
  | nil => rfl
  | cons l ls ih =>
    obtain ⟨hl, hls⟩ := List.forall_mem_cons.mp hclean
    cases ls with
    | nil =>
      have hne : l ≠ [] := hlast l rfl
      rw [List.intercalate_singleton, runs_eq_singleton (by simpa using hne) (by simp),
        layOut_singleton, List.intercalate_singleton]
      have hcopied : capRuns nl 2 0 (l ++ []) = _ := capRuns_append hl hne
      simpa using hcopied
    | cons next ls =>
      have hrest := ih hls (by simpa using hlast)
      rw [intercalate_cons_ne_nil (List.cons_ne_nil next ls)]
      cases l with
      | nil => rw [runs_cons rfl, ← hrest, List.nil_append, capRuns_zero]
      | cons a l =>
        rw [capRuns_append hl (List.cons_ne_nil a l), capRuns_succ]
        cases next with
        | nil =>
          -- A blank line ends the paragraph; those that follow it are dropped.
          have hne : ls ≠ [] := by
            rintro rfl
            exact hlast [] rfl rfl
          have hruns : runs List.isEmpty ((a :: l) :: [] :: ls) =
              [a :: l] :: runs List.isEmpty ls := by
            have hdivide : runs List.isEmpty ([a :: l] ++ [] :: ls) = _ := runs_append_cons rfl
            rw [runs_eq_singleton (l := [a :: l]) (by simp) (by simp)] at hdivide
            simpa using hdivide
          have hruns' : runs List.isEmpty ls ≠ [] := by
            obtain ⟨last, hmem⟩ :=
              Option.ne_none_iff_exists'.mp (mt List.getLast?_eq_none_iff.mp hne)
            have hblank := hlast last (by simp [List.getLast?_cons, hmem])
            exact runs_ne_nil (List.mem_of_getLast? hmem) (by simpa using hblank)
          rw [runs_cons rfl] at hrest
          rw [intercalate_cons_ne_nil hne, List.nil_append] at hrest ⊢
          rw [capRuns_zero] at hrest
          rw [capRuns_succ, hrest, hruns, layOut_cons hruns', List.intercalate_singleton]
        | cons b next =>
          obtain ⟨r, rs, hr, hrr⟩ := runs_cons_cons (p := List.isEmpty) (a := a :: l)
            (b := b :: next) (l := ls) rfl rfl
          have hb : b ≠ nl := fun heq =>
            (List.forall_mem_cons.mp hls).1 (heq ▸ List.mem_cons_self)
          have hhead : ∀ c ∈ ([nl].intercalate ((b :: next) :: ls)).head?, c ≠ nl := by
            simp [hb]
          have hne : r ≠ [] :=
            (mem_runs (l := (b :: next) :: ls) (hr ▸ List.mem_cons_self)).1
          rw [hrr, layOut_cons_cons hne, ← hr, ← hrest, capRuns_room hhead 0]

/-- Trimmed lines are laid out in paragraphs when they are joined, the ends are trimmed and no more
than two separators may follow one another. -/
theorem capRuns_trim {p : α → Bool} (hsep : p nl = true) (hclean : ∀ l ∈ ls, nl ∉ l)
    (h : ∀ l ∈ ls, Ends.Trimmed p l) :
    capRuns nl 2 2 (Ends.trim p ([nl].intercalate ls)) = layOut nl (runs List.isEmpty ls) := by
  have hdrop : ∀ l ∈ ls.dropWhile List.isEmpty, l ∈ ls := fun l hl =>
    (List.dropWhile_sublist _).subset hl
  have htrim : ∀ l ∈ Ends.trim List.isEmpty ls, l ∈ ls := fun l hl =>
    hdrop l ((List.rdropWhile_prefix _ _).subset hl)
  have hjoined : Ends.trim p ([nl].intercalate ls) =
      [nl].intercalate (Ends.trim List.isEmpty ls) := by
    rw [Ends.trim, dropWhile_intercalate hsep h,
      rdropWhile_intercalate hsep fun l hl => h l (hdrop l hl), Ends.trim]
  have hends : Ends.Trimmed List.isEmpty (Ends.trim List.isEmpty ls) := Ends.trimmed_trim _ _
  have hhead : ∀ a ∈ ([nl].intercalate (Ends.trim List.isEmpty ls)).head?, a ≠ nl := by
    cases hfirst : Ends.trim List.isEmpty ls with
    | nil => simp
    | cons l rest =>
      have hne : l ≠ [] := by simpa [hfirst] using hends.head l
      have hl : nl ∉ l := hclean l (htrim l (hfirst ▸ List.mem_cons_self))
      rw [head?_intercalate hne]
      exact fun a ha heq => hl (heq ▸ List.mem_of_mem_head? ha)
  rw [hjoined, capRuns_room hhead 0,
    capRuns_intercalate (fun l hl => hclean l (htrim l hl)) fun l hl => by
      simpa using hends.last l hl, runs_trim]

end Paragraphs
