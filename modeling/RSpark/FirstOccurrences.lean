import Mathlib.Data.List.Pairwise

/- First occurrences under a relation: the members of a list that nothing before them is
   related to. -/
namespace FirstOccurrences

variable {α : Type} (R S : α → α → Prop) [DecidableRel R] [DecidableRel S]

/-- `earlier` has the members before the list, the latest first. -/
def firstsAfter (earlier : List α) : List α → List α
  | [] => []
  | a :: l =>
      if ∃ b ∈ earlier, R b a then firstsAfter (a :: earlier) l
      else a :: firstsAfter (a :: earlier) l

def AtEach (P : List α → α → Prop) : List α → List α → Prop
  | _, [] => True
  | earlier, a :: l => P earlier a ∧ AtEach P (a :: earlier) l

instance decidableAtEach (P : List α → α → Prop) [∀ earlier a, Decidable (P earlier a)] :
    (earlier l : List α) → Decidable (AtEach P earlier l)
  | _, [] => inferInstanceAs (Decidable True)
  | earlier, a :: l =>
      have := decidableAtEach P (a :: earlier) l
      inferInstanceAs (Decidable (P earlier a ∧ AtEach P (a :: earlier) l))

theorem atEach_congr {P Q : List α → α → Prop} {I : List α → α → Prop}
    (same : ∀ earlier a, I earlier a → (P earlier a ↔ Q earlier a)) {earlier l : List α}
    (inside : AtEach I earlier l) : AtEach P earlier l ↔ AtEach Q earlier l := by
  induction l generalizing earlier with
  | nil => exact Iff.rfl
  | cons a l ih => exact and_congr (same earlier a inside.1) (ih inside.2)

theorem atEach_of_forall {p : α → Prop} {earlier l : List α} (before : ∀ a ∈ earlier, p a)
    (all : ∀ a ∈ l, p a) : AtEach (fun earlier a => (∀ b ∈ earlier, p b) ∧ p a) earlier l := by
  induction l generalizing earlier with
  | nil => trivial
  | cons a l ih =>
    obtain ⟨head, tail⟩ := List.forall_mem_cons.mp all
    exact ⟨⟨before, head⟩, ih (List.forall_mem_cons.mpr ⟨head, before⟩) tail⟩

theorem firstsAfter_sublist (earlier l : List α) : (firstsAfter R earlier l).Sublist l := by
  induction l generalizing earlier with
  | nil => exact List.Sublist.slnil
  | cons a l ih =>
    rw [firstsAfter]
    split
    · exact (ih _).cons a
    · exact (ih _).cons_cons a

theorem firstsAfter_new {earlier l : List α} {a b : α} (kept : a ∈ firstsAfter R earlier l)
    (before : b ∈ earlier) : ¬ R b a := by
  induction l generalizing earlier with
  | nil => cases kept
  | cons c l ih =>
    rw [firstsAfter] at kept
    split at kept
    · exact ih kept (List.mem_cons_of_mem c before)
    · rename_i fresh
      rcases List.mem_cons.mp kept with rfl | later
      · exact fun related => fresh ⟨b, before, related⟩
      · exact ih later (List.mem_cons_of_mem c before)

theorem firstsAfter_apart (earlier l : List α) :
    (firstsAfter R earlier l).Pairwise fun b a => ¬ R b a := by
  induction l generalizing earlier with
  | nil => exact List.Pairwise.nil
  | cons a l ih =>
    rw [firstsAfter]
    split
    · exact ih _
    · refine List.pairwise_cons.mpr ⟨fun c kept => ?_, ih _⟩
      exact firstsAfter_new R kept List.mem_cons_self

theorem firstsAfter_append (earlier before after : List α) (a : α) :
    firstsAfter R earlier (before ++ a :: after) =
      firstsAfter R earlier before ++
        ((if ∃ b ∈ before.reverse ++ earlier, R b a then [] else [a]) ++
          firstsAfter R (a :: (before.reverse ++ earlier)) after) := by
  induction before generalizing earlier with
  | nil =>
    rw [List.nil_append, List.reverse_nil, List.nil_append]
    by_cases related : ∃ b ∈ earlier, R b a
    · simp only [firstsAfter, if_pos related, List.nil_append]
    · simp only [firstsAfter, if_neg related, List.nil_append, List.singleton_append]
  | cons c before ih =>
    rw [List.cons_append, List.reverse_cons, List.append_assoc, List.singleton_append]
    by_cases related : ∃ b ∈ earlier, R b c
    · rw [firstsAfter, firstsAfter, if_pos related, if_pos related, ih]
    · rw [firstsAfter, firstsAfter, if_neg related, if_neg related, ih, List.cons_append]

/-- Two relations keep the same members exactly if at each member both find something before it,
    or neither does. -/
theorem firstsAfter_eq_iff (earlier l : List α) :
    firstsAfter R earlier l = firstsAfter S earlier l ↔
      AtEach (fun earlier a => (∃ b ∈ earlier, R b a) ↔ ∃ b ∈ earlier, S b a) earlier l := by
  induction l generalizing earlier with
  | nil => exact iff_of_true rfl trivial
  | cons a l ih =>
    rw [firstsAfter, firstsAfter, AtEach]
    by_cases r : ∃ b ∈ earlier, R b a
    · by_cases s : ∃ b ∈ earlier, S b a
      · rw [if_pos r, if_pos s, ih]
        exact (and_iff_right (iff_of_true r s)).symm
      · rw [if_pos r, if_neg s]
        refine iff_of_false (fun same => ?_) fun each => s (each.1.mp r)
        obtain ⟨b, before, related⟩ := r
        have kept : a ∈ firstsAfter R (a :: earlier) l := by
          rw [same]
          exact List.mem_cons_self
        exact firstsAfter_new R kept (List.mem_cons_of_mem a before) related
    · by_cases s : ∃ b ∈ earlier, S b a
      · rw [if_neg r, if_pos s]
        refine iff_of_false (fun same => ?_) fun each => r (each.1.mpr s)
        obtain ⟨b, before, related⟩ := s
        have kept : a ∈ firstsAfter S (a :: earlier) l := by
          rw [← same]
          exact List.mem_cons_self
        exact firstsAfter_new S kept (List.mem_cons_of_mem a before) related
      · rw [if_neg r, if_neg s, List.cons.injEq, ih]
        refine and_congr_left' (iff_of_true rfl (iff_of_false r s))

end FirstOccurrences
