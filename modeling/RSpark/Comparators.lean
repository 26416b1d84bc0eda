import Mathlib.Data.List.Sort

/- Comparators that are total preorders on a part of their type: combined, reversed, read through a
   function, and sorted by. -/
namespace Comparators

variable {α β : Type}

/-- A total preorder on the members of `S`: reflexive, antisymmetric under swapping, transitive. -/
structure PreorderOn (cmp : α → α → Ordering) (S : α → Prop) : Prop where
  refl : ∀ a, S a → cmp a a = .eq
  swap : ∀ a b, S a → S b → cmp b a = (cmp a b).swap
  trans : ∀ a b c, S a → S b → S c → cmp a b ≠ .gt → cmp b c ≠ .gt → cmp a c ≠ .gt

section Laws
variable {cmp cmp' : α → α → Ordering} {S : α → Prop} {a b c : α}

theorem preorderOn_of_swap (swap : ∀ a b, S a → S b → cmp b a = (cmp a b).swap)
    (trans : ∀ a b c, S a → S b → S c → cmp a b ≠ .gt → cmp b c ≠ .gt → cmp a c ≠ .gt) :
    PreorderOn cmp S := by
  refine ⟨fun a inside => ?_, swap, trans⟩
  have same := swap a a inside inside
  cases compared : cmp a a <;> rw [compared] at same <;> first | rfl | cases same

theorem tie_of_le (swap : cmp b a = (cmp a b).swap) (ab : cmp a b ≠ .gt) (ba : cmp b a ≠ .gt) :
    cmp a b = .eq := by
  rw [swap] at ba
  cases compared : cmp a b with
  | lt =>
    rw [compared] at ba
    exact absurd rfl ba
  | eq => rfl
  | gt => exact absurd compared ab

theorem PreorderOn.subset {T : α → Prop} (order : PreorderOn cmp S) (inside : ∀ a, T a → S a) :
    PreorderOn cmp T :=
  ⟨fun a at_a => order.refl a (inside a at_a),
    fun a b at_a at_b => order.swap a b (inside a at_a) (inside b at_b),
    fun a b c at_a at_b at_c => order.trans a b c (inside a at_a) (inside b at_b) (inside c at_c)⟩

theorem PreorderOn.comap (order : PreorderOn cmp S) (f : β → α) :
    PreorderOn (fun x y => cmp (f x) (f y)) fun x => S (f x) :=
  ⟨fun x => order.refl (f x), fun x y => order.swap (f x) (f y),
    fun x y z => order.trans (f x) (f y) (f z)⟩

theorem PreorderOn.congr (order : PreorderOn cmp S)
    (same : ∀ a b, S a → S b → cmp' a b = cmp a b) : PreorderOn cmp' S := by
  refine ⟨fun a at_a => ?_, fun a b at_a at_b => ?_, fun a b c at_a at_b at_c ab bc => ?_⟩
  · rw [same a a at_a at_a]
    exact order.refl a at_a
  · rw [same b a at_b at_a, same a b at_a at_b]
    exact order.swap a b at_a at_b
  · rw [same a b at_a at_b] at ab
    rw [same b c at_b at_c] at bc
    rw [same a c at_a at_c]
    exact order.trans a b c at_a at_b at_c ab bc

theorem PreorderOn.reverse (order : PreorderOn cmp S) :
    PreorderOn (fun a b => (cmp a b).swap) S := by
  have turned {a b : α} (at_a : S a) (at_b : S b) : (cmp a b).swap = cmp b a :=
    (order.swap a b at_a at_b).symm
  refine preorderOn_of_swap (fun a b at_a at_b => ?_) fun a b c at_a at_b at_c ab bc => ?_
  · rw [order.swap a b at_a at_b]
  · rw [turned at_a at_b] at ab
    rw [turned at_b at_c] at bc
    rw [turned at_a at_c]
    exact order.trans c b a at_c at_b at_a bc ab

theorem PreorderOn.lt_of_lt_of_le (order : PreorderOn cmp S) (at_a : S a) (at_b : S b) (at_c : S c)
    (ab : cmp a b = .lt) (bc : cmp b c ≠ .gt) : cmp a c = .lt := by
  have atMost := order.trans a b c at_a at_b at_c (by rw [ab]; exact Ordering.noConfusion) bc
  cases ac : cmp a c with
  | lt => rfl
  | gt => exact absurd ac atMost
  | eq =>
    have ca : cmp c a ≠ .gt := by
      rw [order.swap a c at_a at_c, ac]
      exact Ordering.noConfusion
    have ba := order.trans b c a at_b at_c at_a bc ca
    rw [order.swap a b at_a at_b, ab] at ba
    exact absurd rfl ba

theorem PreorderOn.lt_of_le_of_lt (order : PreorderOn cmp S) (at_a : S a) (at_b : S b) (at_c : S c)
    (ab : cmp a b ≠ .gt) (bc : cmp b c = .lt) : cmp a c = .lt := by
  have atMost := order.trans a b c at_a at_b at_c ab (by rw [bc]; exact Ordering.noConfusion)
  cases ac : cmp a c with
  | lt => rfl
  | gt => exact absurd ac atMost
  | eq =>
    have ca : cmp c a ≠ .gt := by
      rw [order.swap a c at_a at_c, ac]
      exact Ordering.noConfusion
    have cb := order.trans c a b at_c at_a at_b ca ab
    rw [order.swap b c at_b at_c, bc] at cb
    exact absurd rfl cb

theorem PreorderOn.eq_trans (order : PreorderOn cmp S) (at_a : S a) (at_b : S b) (at_c : S c)
    (ab : cmp a b = .eq) (bc : cmp b c = .eq) : cmp a c = .eq := by
  have atMost := order.trans a b c at_a at_b at_c (by rw [ab]; exact Ordering.noConfusion)
    (by rw [bc]; exact Ordering.noConfusion)
  cases ac : cmp a c with
  | eq => rfl
  | gt => exact absurd ac atMost
  | lt =>
    have cb : cmp c b ≠ .gt := by
      rw [order.swap b c at_b at_c, bc]
      exact Ordering.noConfusion
    have less := order.lt_of_lt_of_le at_a at_c at_b ac cb
    rw [ab] at less
    cases less

theorem PreorderOn.andThen (first : PreorderOn cmp S) (second : PreorderOn cmp' S) :
    PreorderOn (fun a b => (cmp a b).then (cmp' a b)) S := by
  refine preorderOn_of_swap (fun a b at_a at_b => ?_) fun a b c at_a at_b at_c ab bc => ?_
  · rw [first.swap a b at_a at_b, second.swap a b at_a at_b]
    cases cmp a b <;> rfl
  · have notGreater {a b : α} (at_most : (cmp a b).then (cmp' a b) ≠ .gt) :
        cmp a b = .lt ∨ cmp a b = .eq ∧ cmp' a b ≠ .gt := by
      cases compared : cmp a b with
      | lt => exact Or.inl rfl
      | eq =>
        rw [compared] at at_most
        exact Or.inr ⟨rfl, at_most⟩
      | gt =>
        rw [compared] at at_most
        exact absurd rfl at_most
    rcases notGreater ab with less | ⟨tie, at_most⟩
    · have bc' : cmp b c ≠ .gt := by
        rcases notGreater bc with less' | ⟨tie', _⟩
        · rw [less']
          exact Ordering.noConfusion
        · rw [tie']
          exact Ordering.noConfusion
      rw [first.lt_of_lt_of_le at_a at_b at_c less bc']
      exact Ordering.noConfusion
    · rcases notGreater bc with less' | ⟨tie', at_most'⟩
      · rw [first.lt_of_le_of_lt at_a at_b at_c (by rw [tie]; exact Ordering.noConfusion) less']
        exact Ordering.noConfusion
      · rw [first.eq_trans at_a at_b at_c tie tie']
        exact second.trans a b c at_a at_b at_c at_most at_most'

/-- A total preorder but for members that tie with two of which one is below the other. -/
structure LooseOn (cmp : α → α → Ordering) (S : α → Prop) : Prop where
  swap : ∀ a b, S a → S b → cmp b a = (cmp a b).swap
  trans : ∀ a b c, S a → S b → S c → cmp a b = .lt → cmp b c ≠ .gt → cmp a c ≠ .gt

theorem gt_of_lt (swap : cmp b a = (cmp a b).swap) (ab : cmp a b = .lt) : cmp b a = .gt := by
  rw [swap, ab]
  rfl

theorem lt_of_gt (swap : cmp b a = (cmp a b).swap) (ab : cmp a b = .gt) : cmp b a = .lt := by
  rw [swap, ab]
  rfl

theorem eq_of_eq (swap : cmp b a = (cmp a b).swap) (ab : cmp a b = .eq) : cmp b a = .eq := by
  rw [swap, ab]
  rfl

theorem LooseOn.refl (loose : LooseOn cmp S) (at_a : S a) : cmp a a = .eq := by
  have same := loose.swap a a at_a at_a
  cases compared : cmp a a <;> rw [compared] at same <;> first | rfl | cases same

theorem LooseOn.of_le_of_lt (loose : LooseOn cmp S) (at_a : S a) (at_b : S b) (at_c : S c)
    (ab : cmp a b ≠ .gt) (bc : cmp b c = .lt) : cmp a c ≠ .gt := by
  intro greater
  have ca := lt_of_gt (loose.swap a c at_a at_c) greater
  exact loose.trans c a b at_c at_a at_b ca ab (gt_of_lt (loose.swap b c at_b at_c) bc)

theorem LooseOn.lt_trans (loose : LooseOn cmp S) (at_a : S a) (at_b : S b) (at_c : S c)
    (ab : cmp a b = .lt) (bc : cmp b c = .lt) : cmp a c = .lt := by
  cases ac : cmp a c with
  | lt => rfl
  | gt =>
    refine absurd ac (loose.trans a b c at_a at_b at_c ab ?_)
    rw [bc]
    exact Ordering.noConfusion
  | eq =>
    have ca : cmp c a ≠ .gt := by
      rw [eq_of_eq (loose.swap a c at_a at_c) ac]
      exact Ordering.noConfusion
    exact absurd (gt_of_lt (loose.swap b c at_b at_c) bc) (loose.of_le_of_lt at_c at_a at_b ca ab)

theorem LooseOn.reverse (loose : LooseOn cmp S) : LooseOn (fun a b => (cmp a b).swap) S := by
  have turned {a b : α} (at_a : S a) (at_b : S b) : (cmp a b).swap = cmp b a :=
    (loose.swap a b at_a at_b).symm
  refine ⟨fun a b at_a at_b => ?_, fun a b c at_a at_b at_c ab bc => ?_⟩
  · rw [loose.swap a b at_a at_b]
  · rw [turned at_a at_b] at ab
    rw [turned at_b at_c] at bc
    rw [turned at_a at_c]
    exact loose.of_le_of_lt at_c at_b at_a bc ab

theorem LooseOn.comap (loose : LooseOn cmp S) (f : β → α) :
    LooseOn (fun x y => cmp (f x) (f y)) fun x => S (f x) :=
  ⟨fun x y => loose.swap (f x) (f y), fun x y z => loose.trans (f x) (f y) (f z)⟩

theorem LooseOn.subset {T : α → Prop} (loose : LooseOn cmp S) (inside : ∀ a, T a → S a) :
    LooseOn cmp T :=
  ⟨fun a b at_a at_b => loose.swap a b (inside a at_a) (inside b at_b),
    fun a b c at_a at_b at_c => loose.trans a b c (inside a at_a) (inside b at_b) (inside c at_c)⟩

theorem LooseOn.all_tied (loose : LooseOn cmp S) (at_a : S a) (at_b : S b) (at_c : S c)
    (ab : cmp a b = .eq) (bc : cmp b c = .eq) (ac : cmp a c = .eq) :
    ∀ x y, x = a ∨ x = b ∨ x = c → y = a ∨ y = b ∨ y = c → cmp x y = .eq := by
  have ba := eq_of_eq (loose.swap a b at_a at_b) ab
  have cb := eq_of_eq (loose.swap b c at_b at_c) bc
  have ca := eq_of_eq (loose.swap a c at_a at_c) ac
  rintro x y (rfl | rfl | rfl) (rfl | rfl | rfl)
  all_goals first | assumption | exact loose.refl ‹_›

/-- The second comparator settles what the first leaves between two members that do not tie. -/
def Settles (cmp' cmp : α → α → Ordering) (S : α → Prop) : Prop :=
  ∀ a b c, S a → S b → S c → cmp a c = .lt → cmp a b = .eq → cmp b c = .eq →
    cmp' a b = .lt ∨ cmp' b c = .lt

theorem LooseOn.settles_of_then (first : LooseOn cmp S)
    (swap' : ∀ a b, S a → S b → cmp' b a = (cmp' a b).swap)
    (order : PreorderOn (fun a b => (cmp a b).then (cmp' a b)) S) : Settles cmp' cmp S := by
  intro a b c at_a at_b at_c ac ab bc
  by_contra unsettled
  obtain ⟨notAb, notBc⟩ := not_or.mp unsettled
  have cb : (cmp c b).then (cmp' c b) ≠ .gt := by
    rw [eq_of_eq (first.swap b c at_b at_c) bc]
    exact fun greater => notBc (lt_of_gt (swap' c b at_c at_b) greater)
  have ba : (cmp b a).then (cmp' b a) ≠ .gt := by
    rw [eq_of_eq (first.swap a b at_a at_b) ab]
    exact fun greater => notAb (lt_of_gt (swap' b a at_b at_a) greater)
  refine order.trans c b a at_c at_b at_a cb ba ?_
  rw [gt_of_lt (first.swap a c at_a at_c) ac]
  rfl

theorem then_ne_gt {x y : Ordering} (le : x.then y ≠ .gt) : x = .lt ∨ x = .eq ∧ y ≠ .gt := by
  cases x with
  | lt => exact Or.inl rfl
  | eq => exact Or.inr ⟨rfl, le⟩
  | gt => exact absurd rfl le

theorem LooseOn.then_trans (first : LooseOn cmp S)
    (swap' : ∀ a b, S a → S b → cmp' b a = (cmp' a b).swap) (settled : Settles cmp' cmp S)
    (tied : ∀ T : α → Prop, (∀ a, T a → S a) → (∀ a b, T a → T b → cmp a b = .eq) →
      PreorderOn cmp' T) (at_a : S a) (at_b : S b) (at_c : S c)
    (ab : (cmp a b).then (cmp' a b) ≠ .gt) (bc : (cmp b c).then (cmp' b c) ≠ .gt) :
    (cmp a c).then (cmp' a c) ≠ .gt := by
  have upper {x y : α} (at_x : S x) (at_y : S y) (xy : cmp' x y ≠ .gt) : cmp' y x ≠ .lt :=
    fun less => xy (gt_of_lt (swap' y x at_y at_x) less)
  rcases then_ne_gt ab with ab' | ⟨ab', ab⟩ <;> rcases then_ne_gt bc with bc' | ⟨bc', bc⟩
  · rw [first.lt_trans at_a at_b at_c ab' bc']
    exact Ordering.noConfusion
  · -- c ties with b; where it ties with a too, it has to be settled above a
    have cb := eq_of_eq (first.swap b c at_b at_c) bc'
    cases ac' : cmp a c with
    | lt => exact Ordering.noConfusion
    | gt =>
      refine absurd ac' (first.trans a b c at_a at_b at_c ab' ?_)
      rw [bc']
      exact Ordering.noConfusion
    | eq =>
      rcases settled a c b at_a at_c at_b ab' ac' cb with less | less
      · rw [less]
        exact Ordering.noConfusion
      · exact absurd less (upper at_b at_c bc)
  · have ba := eq_of_eq (first.swap a b at_a at_b) ab'
    cases ac' : cmp a c with
    | lt => exact Ordering.noConfusion
    | gt =>
      refine absurd ac' (first.of_le_of_lt at_a at_b at_c ?_ bc')
      rw [ab']
      exact Ordering.noConfusion
    | eq =>
      rcases settled b a c at_b at_a at_c bc' ba ac' with less | less
      · exact absurd less (upper at_a at_b ab)
      · rw [less]
        exact Ordering.noConfusion
  · cases ac' : cmp a c with
    | lt => exact Ordering.noConfusion
    | gt =>
      have ca := lt_of_gt (first.swap a c at_a at_c) ac'
      have cb := eq_of_eq (first.swap b c at_b at_c) bc'
      have ba := eq_of_eq (first.swap a b at_a at_b) ab'
      rcases settled c b a at_c at_b at_a ca cb ba with less | less
      · exact absurd less (upper at_b at_c bc)
      · exact absurd less (upper at_a at_b ab)
    | eq =>
      have three := tied (fun x => x = a ∨ x = b ∨ x = c) ?_ ?_
      · exact three.trans a b c (Or.inl rfl) (Or.inr (Or.inl rfl)) (Or.inr (Or.inr rfl)) ab bc
      · rintro x (rfl | rfl | rfl)
        · exact at_a
        · exact at_b
        · exact at_c
      · exact first.all_tied at_a at_b at_c ab' bc' ac'

/-- A tie is decided by the second comparator: it has to settle what the first leaves, and to be
    in order wherever the first decides nothing. -/
theorem LooseOn.then_preorderOn_iff (first : LooseOn cmp S)
    (swap' : ∀ a b, S a → S b → cmp' b a = (cmp' a b).swap) :
    PreorderOn (fun a b => (cmp a b).then (cmp' a b)) S ↔ Settles cmp' cmp S ∧
      ∀ T : α → Prop, (∀ a, T a → S a) → (∀ a b, T a → T b → cmp a b = .eq) →
        PreorderOn cmp' T := by
  constructor
  · intro order
    refine ⟨first.settles_of_then swap' order, fun T inside ties => ?_⟩
    refine (order.subset inside).congr fun a b at_a at_b => ?_
    rw [ties a b at_a at_b]
    rfl
  · intro ⟨settled, tied⟩
    refine preorderOn_of_swap (fun a b at_a at_b => ?_) fun a b c at_a at_b at_c ab bc => ?_
    · rw [first.swap a b at_a at_b, swap' a b at_a at_b]
      cases cmp a b <;> rfl
    · exact first.then_trans swap' settled tied at_a at_b at_c ab bc

theorem preorderOn_tie (S : α → Prop) : PreorderOn (fun _ _ => .eq) S :=
  ⟨fun _ _ => rfl, fun _ _ _ _ => rfl, fun _ _ _ _ _ _ _ _ => Ordering.noConfusion⟩

theorem preorderOn_compare [Ord α] [Std.TransOrd α] (S : α → Prop) :
    PreorderOn (compare : α → α → Ordering) S := by
  refine preorderOn_of_swap (fun a b _ _ => Std.OrientedOrd.eq_swap) fun a b c _ _ _ ab bc => ?_
  rw [ne_eq, ← Ordering.isLE_iff_ne_gt] at ab bc ⊢
  exact Std.TransCmp.isLE_trans ab bc

def noneFirst (cmp : α → α → Ordering) : Option α → Option α → Ordering
  | none, none => .eq
  | none, some _ => .lt
  | some _, none => .gt
  | some a, some b => cmp a b

theorem PreorderOn.noneFirst (order : PreorderOn cmp S) :
    PreorderOn (noneFirst cmp) fun o => ∀ a, o = some a → S a := by
  refine preorderOn_of_swap (fun x y at_x at_y => ?_) fun x y z at_x at_y at_z xy yz => ?_
  · cases x with
    | none => cases y <;> rfl
    | some a =>
      cases y with
      | none => rfl
      | some b => exact order.swap a b (at_x a rfl) (at_y b rfl)
  · cases x with
    | none => cases z <;> exact Ordering.noConfusion
    | some a =>
      cases y with
      | none => exact absurd rfl xy
      | some b =>
        cases z with
        | none => exact absurd rfl yz
        | some c => exact order.trans a b c (at_x a rfl) (at_y b rfl) (at_z c rfl) xy yz

theorem preorderOn_image {f : β → α} {T : β → Prop} :
    PreorderOn (fun x y => cmp (f x) (f y)) T ↔ PreorderOn cmp fun a => ∃ x, T x ∧ f x = a := by
  constructor
  · intro order
    refine ⟨?_, ?_, ?_⟩
    · rintro _ ⟨x, at_x, rfl⟩
      exact order.refl x at_x
    · rintro _ _ ⟨x, at_x, rfl⟩ ⟨y, at_y, rfl⟩
      exact order.swap x y at_x at_y
    · rintro _ _ _ ⟨x, at_x, rfl⟩ ⟨y, at_y, rfl⟩ ⟨z, at_z, rfl⟩ xy yz
      exact order.trans x y z at_x at_y at_z xy yz
  · intro order
    exact (order.comap f).subset fun x at_x => ⟨x, at_x, rfl⟩

end Laws

section Rounded
variable {left : α → α → Ordering} {right : β → β → Ordering} {round : α → β}

/-- Exact members are compared with each other as they are, and with the others after rounding. -/
def roundedCompare (left : α → α → Ordering) (right : β → β → Ordering) (round : α → β) :
    α ⊕ β → α ⊕ β → Ordering
  | .inl x, .inl y => left x y
  | .inl x, .inr b => right (round x) b
  | .inr a, .inl y => right a (round y)
  | .inr a, .inr b => right a b

/-- The mixed comparison is a preorder exactly if no other member ties with two exact ones that
    differ. -/
theorem preorderOn_rounded {S : α ⊕ β → Prop} (exact' : PreorderOn left fun x => S (.inl x))
    (rounded : PreorderOn right fun _ => True)
    (mono : ∀ x y, S (.inl x) → S (.inl y) → left x y ≠ .gt → right (round x) (round y) ≠ .gt) :
    PreorderOn (roundedCompare left right round) S ↔
      ∀ x y b, S (.inl x) → S (.inl y) → S (.inr b) → right (round x) b = .eq →
        right (round y) b = .eq → left x y = .eq := by
  constructor
  · intro order x y b at_x at_y at_b xb yb
    have by' : roundedCompare left right round (.inr b) (.inl y) = .eq := by
      rw [order.swap (.inl y) (.inr b) at_y at_b]
      exact congrArg Ordering.swap yb
    have xb' : roundedCompare left right round (.inl x) (.inr b) = .eq := xb
    exact order.eq_trans at_x at_b at_y xb' by'
  · intro apart
    have swap (u v : β) : right v u = (right u v).swap := rounded.swap u v trivial trivial
    have trans (u v w : β) : right u v ≠ .gt → right v w ≠ .gt → right u w ≠ .gt :=
      rounded.trans u v w trivial trivial trivial
    refine preorderOn_of_swap (fun p q at_p at_q => ?_) fun p q s at_p at_q at_s pq qs => ?_
    · cases p <;> cases q <;> first | exact swap _ _ | exact exact'.swap _ _ at_p at_q
    · cases p with
      | inr a =>
        cases q with
        | inr b => cases s <;> exact trans _ _ _ pq qs
        | inl y =>
          cases s with
          | inr c => exact trans _ _ _ pq qs
          | inl z => exact trans _ _ _ pq (mono y z at_q at_s qs)
      | inl x =>
        cases q with
        | inl y =>
          cases s with
          | inl z => exact exact'.trans x y z at_p at_q at_s pq qs
          | inr c => exact trans _ _ _ (mono x y at_p at_q pq) qs
        | inr b =>
          cases s with
          | inr c => exact trans _ _ _ pq qs
          | inl z =>
            -- where z is below x, rounding puts both on the member between them
            show left x z ≠ .gt
            intro greater
            have zx : left z x ≠ .gt := by
              rw [exact'.swap x z at_p at_s, greater]
              exact Ordering.noConfusion
            have below := mono z x at_s at_p zx
            have xb : right (round x) b = .eq := tie_of_le (swap _ _) pq (trans _ _ _ qs below)
            have zb : right (round z) b = .eq := tie_of_le (swap _ _) (trans _ _ _ below pq) qs
            rw [apart x z b at_p at_s at_q xb zb] at greater
            cases greater

end Rounded

section Sorting
variable {r : α → α → Prop} [DecidableRel r]

theorem orderedInsert_stable {before : α → α → Prop} {S : α → Prop}
    (total : ∀ a b, S a → S b → r a b ∨ r b a)
    (trans : ∀ a b c, S a → S b → S c → r a b → r b c → r a c) {a : α} {l : List α} (at_a : S a)
    (inside : ∀ b ∈ l, S b) (ahead : ∀ b ∈ l, before a b)
    (sorted : l.Pairwise fun b c => r b c ∧ (r c b → before b c)) :
    (l.orderedInsert r a).Pairwise fun b c => r b c ∧ (r c b → before b c) := by
  induction l with
  | nil => exact List.pairwise_singleton _ a
  | cons b l ih =>
    obtain ⟨at_b, inside'⟩ := List.forall_mem_cons.mp inside
    obtain ⟨_, ahead'⟩ := List.forall_mem_cons.mp ahead
    obtain ⟨first, later⟩ := List.pairwise_cons.mp sorted
    rw [List.orderedInsert_cons]
    split
    · rename_i ab
      refine List.pairwise_cons.mpr ⟨fun c mem => ⟨?_, fun _ => ahead c mem⟩, sorted⟩
      rcases List.mem_cons.mp mem with rfl | mem'
      · exact ab
      · exact trans a b c at_a at_b (inside' c mem') ab (first c mem').1
    · rename_i notAb
      refine List.pairwise_cons.mpr ⟨fun c mem => ?_, ih inside' ahead' later⟩
      rcases (List.mem_orderedInsert r).mp mem with rfl | mem'
      · exact ⟨(total c b at_a at_b).resolve_left notAb, fun ab => absurd ab notAb⟩
      · exact first c mem'

theorem insertionSort_stable {before : α → α → Prop} {S : α → Prop}
    (total : ∀ a b, S a → S b → r a b ∨ r b a)
    (trans : ∀ a b c, S a → S b → S c → r a b → r b c → r a c) {l : List α}
    (inside : ∀ a ∈ l, S a) (listed : l.Pairwise before) :
    (l.insertionSort r).Pairwise fun a b => r a b ∧ (r b a → before a b) := by
  induction l with
  | nil => exact List.Pairwise.nil
  | cons a l ih =>
    obtain ⟨at_a, inside'⟩ := List.forall_mem_cons.mp inside
    obtain ⟨ahead, listed'⟩ := List.pairwise_cons.mp listed
    have members {b : α} (mem : b ∈ l.insertionSort r) : b ∈ l :=
      (List.perm_insertionSort r l).mem_iff.mp mem
    exact orderedInsert_stable total trans at_a (fun b mem => inside' b (members mem))
      (fun b mem => ahead b (members mem)) (ih inside' listed')

theorem sort_places {cmp : α → α → Ordering} {l : List α}
    (order : PreorderOn cmp fun a => a ∈ l) :
    ∃ places : List (α × Nat), places.Perm l.zipIdx ∧
      l.insertionSort (fun a b => cmp a b ≠ .gt) = places.map Prod.fst ∧
      places.Pairwise fun p q => cmp p.1 q.1 = .lt ∨ cmp p.1 q.1 = .eq ∧ p.2 < q.2 := by
  refine ⟨l.zipIdx.insertionSort fun p q => cmp p.1 q.1 ≠ .gt, List.perm_insertionSort _ _, ?_, ?_⟩
  · rw [List.map_insertionSort (fun p q : α × Nat => cmp p.1 q.1 ≠ .gt)
      (fun a b => cmp a b ≠ .gt) Prod.fst l.zipIdx fun _ _ _ _ => Iff.rfl,
      List.zipIdx_map_fst]
  · have inside : ∀ p ∈ l.zipIdx, p.1 ∈ l := fun p mem => by
      have listed := List.mem_map_of_mem (f := Prod.fst) mem
      rwa [List.zipIdx_map_fst] at listed
    have listed : l.zipIdx.Pairwise fun p q => p.2 < q.2 := by
      rw [← List.pairwise_map (f := Prod.snd), List.zipIdx_map_snd]
      exact List.pairwise_lt_range'
    have sorted := insertionSort_stable (r := fun p q : α × Nat => cmp p.1 q.1 ≠ .gt)
      (S := fun p => p.1 ∈ l) (fun p q at_p at_q => ?_) (fun p q s at_p at_q at_s =>
        order.trans p.1 q.1 s.1 at_p at_q at_s) inside listed
    · refine sorted.imp_of_mem fun {p q} memP memQ both => ?_
      have at_p := inside p ((List.perm_insertionSort _ _).mem_iff.mp memP)
      have at_q := inside q ((List.perm_insertionSort _ _).mem_iff.mp memQ)
      obtain ⟨atMost, placed⟩ := both
      rw [order.swap p.1 q.1 at_p at_q] at placed
      cases compared : cmp p.1 q.1 with
      | lt => exact Or.inl rfl
      | gt => exact absurd compared atMost
      | eq =>
        rw [compared] at placed
        exact Or.inr ⟨rfl, placed Ordering.noConfusion⟩
    · rw [order.swap p.1 q.1 at_p at_q]
      cases cmp p.1 q.1
      · exact Or.inl Ordering.noConfusion
      · exact Or.inl Ordering.noConfusion
      · exact Or.inr Ordering.noConfusion

end Sorting

end Comparators
