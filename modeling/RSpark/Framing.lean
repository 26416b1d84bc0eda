import Mathlib.Data.List.Infix
import Mathlib.Tactic.Common

/- A stream cut into frames by a test of what has been held since the last cut: a frame is complete
   at the first element with which the test holds. The cut is determined by the stream. -/
namespace Framing
variable {α : Type} (closes : List α → Bool)

def feed (held : List α) : List α → List (List α) × List α
  | [] => ([], held)
  | x :: xs =>
      if closes (held ++ [x]) then ((held ++ [x]) :: (feed [] xs).1, (feed [] xs).2)
      else feed (held ++ [x]) xs

def Unfinished (xs : List α) : Prop := ∀ p, p <+: xs → p ≠ [] → closes p = false

/-- Closed, by its last element and by none before. -/
structure Frame (xs : List α) : Prop where
  nonempty : xs ≠ []
  closed : closes xs = true
  first : ∀ p, p <+: xs → p ≠ [] → closes p = true → p = xs

structure Cut (xs : List α) (frames : List (List α)) (rest : List α) : Prop where
  whole : frames.flatten ++ rest = xs
  complete : ∀ f ∈ frames, Frame closes f
  unfinished : Unfinished closes rest

variable {closes} {xs held rest rest' : List α} {frames frames' : List (List α)} {x : α}

theorem unfinished_nil : Unfinished closes ([] : List α) :=
  fun _ inside nonempty => absurd (List.prefix_nil.mp inside) nonempty

theorem Unfinished.concat (unfinished : Unfinished closes held)
    (openStill : closes (held ++ [x]) = false) : Unfinished closes (held ++ [x]) := by
  intro p inside nonempty
  rcases List.prefix_concat_iff.mp inside with rfl | before
  · exact openStill
  · exact unfinished p before nonempty

theorem Unfinished.frame (unfinished : Unfinished closes held)
    (closed : closes (held ++ [x]) = true) : Frame closes (held ++ [x]) := by
  refine ⟨List.concat_ne_nil x held, closed, fun p inside nonempty closedHere => ?_⟩
  rcases List.prefix_concat_iff.mp inside with same | before
  · exact same
  · rw [unfinished p before nonempty] at closedHere
    cases closedHere

theorem feed_cut (unfinished : Unfinished closes held) (xs : List α) :
    Cut closes (held ++ xs) (feed closes held xs).1 (feed closes held xs).2 := by
  induction xs generalizing held with
  | nil => exact ⟨by simp [feed], nofun, unfinished⟩
  | cons x xs ih =>
    rw [feed]
    split
    · rename_i closed
      obtain ⟨whole, complete, last⟩ := ih unfinished_nil
      refine ⟨?_, ?_, last⟩
      · rw [List.flatten_cons, List.append_assoc, whole]
        simp
      · exact List.forall_mem_cons.mpr ⟨unfinished.frame closed, complete⟩
    · rename_i openStill
      obtain ⟨whole, complete, last⟩ := ih (unfinished.concat (Bool.eq_false_iff.mpr openStill))
      exact ⟨whole.trans (by simp), complete, last⟩

theorem feed_append (held xs ys : List α) :
    feed closes held (xs ++ ys) =
      ((feed closes held xs).1 ++ (feed closes (feed closes held xs).2 ys).1,
        (feed closes (feed closes held xs).2 ys).2) := by
  induction xs generalizing held with
  | nil => rfl
  | cons x xs ih =>
    rw [List.cons_append, feed, feed]
    split
    · rw [ih]
      rfl
    · rw [ih]

theorem no_frame {f later : List α} (frame : Frame closes f)
    (unfinished : Unfinished closes (f ++ later)) : False := by
  have openStill := unfinished f (List.prefix_append f later) frame.nonempty
  rw [frame.closed] at openStill
  cases openStill

theorem frame_unique {f f' later later' : List α} (frame : Frame closes f)
    (frame' : Frame closes f') (same : f ++ later = f' ++ later') : f = f' := by
  have inside : f <+: f' ++ later' := same ▸ List.prefix_append f later
  rcases List.prefix_or_prefix_of_prefix inside (List.prefix_append f' later') with short | long
  · exact frame'.first f short frame.nonempty frame.closed
  · exact (frame.first f' long frame'.nonempty frame'.closed).symm

theorem cut_unique (cut : Cut closes xs frames rest) (cut' : Cut closes xs frames' rest') :
    frames = frames' ∧ rest = rest' := by
  induction frames generalizing xs frames' with
  | nil =>
    cases frames' with
    | nil => exact ⟨rfl, cut.whole.trans cut'.whole.symm⟩
    | cons f fs =>
      have whole : rest = f ++ (fs.flatten ++ rest') := by
        rw [← List.append_assoc, ← List.flatten_cons]
        exact cut.whole.trans cut'.whole.symm
      exact (no_frame (cut'.complete f List.mem_cons_self) (whole ▸ cut.unfinished)).elim
  | cons f fs ih =>
    have whole := cut.whole
    rw [List.flatten_cons, List.append_assoc] at whole
    cases frames' with
    | nil =>
      have whole' : rest' = xs := cut'.whole
      rw [← whole] at whole'
      exact (no_frame (cut.complete f List.mem_cons_self) (whole' ▸ cut'.unfinished)).elim
    | cons f' fs' =>
      have whole' := cut'.whole
      rw [List.flatten_cons, List.append_assoc] at whole'
      obtain rfl := frame_unique (cut.complete f List.mem_cons_self)
        (cut'.complete f' List.mem_cons_self) (whole.trans whole'.symm)
      have later := List.append_cancel_left (whole.trans whole'.symm)
      obtain ⟨rfl, rfl⟩ := ih
        ⟨rfl, fun g mem => cut.complete g (List.mem_cons_of_mem _ mem), cut.unfinished⟩
        ⟨later.symm, fun g mem => cut'.complete g (List.mem_cons_of_mem _ mem), cut'.unfinished⟩
      exact ⟨rfl, rfl⟩

end Framing
