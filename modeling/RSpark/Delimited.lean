import Mathlib.Data.List.Basic

/- Writings that can be told from what follows them. A text put together from such writings is
   the writing of one thing only. -/
namespace Delimited

variable {α β χ : Type}

/-- In front of what may follow, a writing tells what is written and where it stops. -/
def Delimits (follow : List χ → Prop) (enc : α → List χ) : Prop :=
  ∀ a b x y, follow x → follow y → enc a ++ x = enc b ++ y → a = b ∧ x = y

def anything : List χ → Prop := fun _ => True

def beginsWith (p : χ → Prop) : List χ → Prop
  | [] => False
  | c :: _ => p c

section Rules
variable {follow follow' : List χ → Prop} {enc : α → List χ} {enc' : β → List χ}

theorem Delimits.mono (d : Delimits follow enc) (fewer : ∀ x, follow' x → follow x) :
    Delimits follow' enc :=
  fun a b x y hx hy same => d a b x y (fewer x hx) (fewer y hy) same

theorem Delimits.injective (d : Delimits follow enc) (stops : follow []) :
    Function.Injective enc := by
  intro a b same
  exact (d a b [] [] stops stops (congrArg (· ++ []) same)).1

theorem Delimits.comp (d : Delimits follow enc) {f : β → α} (inj : Function.Injective f) :
    Delimits follow fun b => enc (f b) := by
  intro a b x y hx hy same
  obtain ⟨here, rest⟩ := d (f a) (f b) x y hx hy same
  exact ⟨inj here, rest⟩

theorem Delimits.append (first : Delimits follow enc) (second : Delimits follow' enc')
    (goesOn : ∀ b x, follow' x → follow (enc' b ++ x)) :
    Delimits follow' fun p : α × β => enc p.1 ++ enc' p.2 := by
  rintro ⟨a, b⟩ ⟨a', b'⟩ x y hx hy same
  rw [List.append_assoc, List.append_assoc] at same
  obtain ⟨rfl, rest⟩ := first _ _ _ _ (goesOn b x hx) (goesOn b' y hy) same
  obtain ⟨rfl, rfl⟩ := second _ _ _ _ hx hy rest
  exact ⟨rfl, rfl⟩

theorem Delimits.after (opening : List χ) (d : Delimits follow enc) :
    Delimits follow fun a => opening ++ enc a := by
  intro a b x y hx hy same
  rw [List.append_assoc, List.append_assoc] at same
  exact d a b x y hx hy (List.append_cancel_left same)

theorem Delimits.before (closing : List χ) (d : Delimits follow enc)
    (goesOn : ∀ x, follow' x → follow (closing ++ x)) :
    Delimits follow' fun a => enc a ++ closing := by
  intro a b x y hx hy same
  rw [List.append_assoc, List.append_assoc] at same
  obtain ⟨here, rest⟩ := d a b _ _ (goesOn x hx) (goesOn y hy) same
  exact ⟨here, List.append_cancel_left rest⟩

end Rules

section Words

theorem words_end {p : χ → Prop} {w v x y : List χ} (clean : ∀ c ∈ w, ¬ p c)
    (clean' : ∀ c ∈ v, ¬ p c) (hx : beginsWith p x) (hy : beginsWith p y)
    (same : w ++ x = v ++ y) : w = v ∧ x = y := by
  induction w generalizing v with
  | nil =>
    cases v with
    | nil => exact ⟨rfl, same⟩
    | cons c v =>
      rw [List.nil_append, List.cons_append] at same
      rw [same] at hx
      exact absurd hx (clean' c List.mem_cons_self)
  | cons c w ih =>
    cases v with
    | nil =>
      rw [List.nil_append, List.cons_append] at same
      rw [← same] at hy
      exact absurd hy (clean c List.mem_cons_self)
    | cons d v =>
      obtain ⟨rfl, later⟩ := List.cons.inj same
      obtain ⟨rfl, rest⟩ := ih (fun e mem => clean e (List.mem_cons_of_mem _ mem))
        (fun e mem => clean' e (List.mem_cons_of_mem _ mem)) later
      exact ⟨rfl, rest⟩

theorem delimits_words {p : χ → Prop} {enc : α → List χ} (clean : ∀ a, ∀ c ∈ enc a, ¬ p c)
    (inj : Function.Injective enc) : Delimits (beginsWith p) enc := by
  intro a b x y hx hy same
  obtain ⟨word, rest⟩ := words_end (clean a) (clean b) hx hy same
  exact ⟨inj word, rest⟩

end Words

section Quotes
variable [DecidableEq χ] (q : χ)

theorem delimits_doubled : Delimits (fun x => x.head? ≠ some q)
    fun cs : List χ => (cs.flatMap fun c => if c = q then [c, c] else [c]) ++ [q] := by
  intro cs ds x y hx hy same
  simp only [List.append_assoc, List.singleton_append] at same
  -- a quote is doubled, so it cannot end the one text where the other goes on
  have goesOn (c : χ) (rest tail : List χ) (alone : tail.head? ≠ some q)
      (same : q :: tail = (if c = q then [c, c] else [c]) ++ rest) : False := by
    split at same
    · rename_i quote
      rw [(List.cons.inj same).2, quote] at alone
      exact alone rfl
    · rename_i other
      exact other (List.cons.inj same).1.symm
  induction cs generalizing ds with
  | nil =>
    cases ds with
    | nil => exact ⟨rfl, (List.cons.inj same).2⟩
    | cons d ds =>
      rw [List.flatMap_nil, List.nil_append, List.flatMap_cons, List.append_assoc] at same
      exact (goesOn d _ x hx same).elim
  | cons c cs ih =>
    cases ds with
    | nil =>
      rw [List.flatMap_nil, List.nil_append, List.flatMap_cons, List.append_assoc] at same
      exact (goesOn c _ y hy same.symm).elim
    | cons d ds =>
      rw [List.flatMap_cons, List.flatMap_cons, List.append_assoc, List.append_assoc] at same
      have letter : c = d := by
        split at same <;> split at same <;> exact (List.cons.inj same).1
      subst letter
      obtain ⟨rfl, rest⟩ := ih ds (List.append_cancel_left same)
      exact ⟨rfl, rest⟩

end Quotes

section Sequences
variable {follow : List χ → Prop} {enc : α → List χ} {sep stop : List χ}

theorem intercalate_cons_flatMap (first : List χ) (later : List (List χ)) :
    sep.intercalate (first :: later) = first ++ later.flatMap (sep ++ ·) := by
  induction later generalizing first with
  | nil => simp
  | cons next later ih =>
    rw [List.intercalate_cons_cons, ih, List.flatMap_cons]
    simp

theorem delimits_items (d : Delimits follow enc) (sepNext : ∀ x, follow (sep ++ x))
    (stopNext : ∀ x, follow (stop ++ x)) (apart : ∀ x y, sep ++ x ≠ stop ++ y) :
    Delimits anything fun l : List α => (l.flatMap fun b => sep ++ enc b) ++ stop := by
  have next (l : List α) (x : List χ) :
      follow (((l.flatMap fun b => sep ++ enc b) ++ stop) ++ x) := by
    cases l with
    | nil => simpa using stopNext x
    | cons b l => simpa using sepNext _
  intro l l' x y _ _ same
  induction l generalizing l' with
  | nil =>
    cases l' with
    | nil => exact ⟨rfl, List.append_cancel_left same⟩
    | cons b l' =>
      simp only [List.flatMap_nil, List.nil_append, List.flatMap_cons, List.append_assoc] at same
      exact absurd same.symm (apart _ _)
  | cons a l ih =>
    cases l' with
    | nil =>
      simp only [List.flatMap_nil, List.nil_append, List.flatMap_cons, List.append_assoc] at same
      exact absurd same (apart _ _)
    | cons b l' =>
      simp only [List.flatMap_cons, List.append_assoc, List.append_cancel_left_eq] at same
      have rest := next l x
      have rest' := next l' y
      simp only [List.append_assoc] at rest rest'
      obtain ⟨rfl, later⟩ := d a b _ _ rest rest' same
      obtain ⟨rfl, behind⟩ := ih l' (by simpa using later)
      exact ⟨rfl, behind⟩

theorem delimits_list (d : Delimits follow enc) (sepNext : ∀ x, follow (sep ++ x))
    (stopNext : ∀ x, follow (stop ++ x)) (apart : ∀ x y, sep ++ x ≠ stop ++ y) :
    Delimits anything fun l : α × List α =>
      sep.intercalate ((l.1 :: l.2).map enc) ++ stop := by
  have items := delimits_items d sepNext stopNext apart
  have both := d.append items fun l x _ => by
    cases l with
    | nil => simpa using stopNext x
    | cons b l => simpa using sepNext _
  intro l l' x y hx hy same
  refine both l l' x y hx hy ?_
  simpa only [List.map_cons, intercalate_cons_flatMap, List.flatMap_map, List.append_assoc]
    using same

end Sequences

end Delimited
