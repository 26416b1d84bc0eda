import RSpark.Listing

/- Walks of a tree that pass a state along: a visit of each node, then the walks of its
   children in their order. They are folds over the nodes in pre-order. -/
namespace TreeWalks
variable {τ σ : Type}

structure Shape (τ : Type) where
  children : τ → List τ
  nodes : τ → List τ
  preorder : ∀ t, nodes t = t :: (children t).flatMap nodes
  induct : ∀ P : τ → Prop, (∀ t, (∀ c ∈ children t, P c) → P t) → ∀ t, P t

def Walks (shape : Shape τ) (visit : τ → σ → σ) (walk : τ → σ → σ) : Prop :=
  ∀ t s, walk t s = (shape.children t).foldl (fun s c => walk c s) (visit t s)

theorem foldl_flatMap_congr {f : σ → τ → σ} {g : τ → List τ} {ts : List τ} {walk : τ → σ → σ}
    (each : ∀ t ∈ ts, ∀ s, walk t s = (g t).foldl f s) (s : σ) :
    ts.foldl (fun s t => walk t s) s = (ts.flatMap g).foldl f s := by
  induction ts generalizing s with
  | nil => rfl
  | cons t ts ih =>
    rw [List.foldl_cons, List.flatMap_cons, List.foldl_append, each t List.mem_cons_self]
    exact ih (fun t mem => each t (List.mem_cons_of_mem _ mem)) _

theorem walk_eq {shape : Shape τ} {visit walk : τ → σ → σ} (walks : Walks shape visit walk)
    (t : τ) (s : σ) : walk t s = (shape.nodes t).foldl (fun s n => visit n s) s := by
  refine shape.induct (fun t => ∀ s, walk t s = (shape.nodes t).foldl (fun s n => visit n s) s)
    (fun t below s => ?_) t s
  rw [walks t s, shape.preorder, List.foldl_cons]
  exact foldl_flatMap_congr below _

theorem walk_filterMap {ν : Type} {shape : Shape τ} {pick : τ → Option ν} {visit : ν → σ → σ}
    {walk : τ → σ → σ} (walks : Walks shape (fun t s => ((pick t).map (visit · s)).getD s) walk)
    (t : τ) (s : σ) :
    walk t s = ((shape.nodes t).filterMap pick).foldl (fun s n => visit n s) s := by
  rw [walk_eq walks, List.foldl_filterMap]
  congr 1
  funext s t
  cases pick t <;> rfl

section Collecting
variable {α : Type}

theorem foldl_append_flatMap (g : τ → List α) (ts : List τ) (out : List α) :
    ts.foldl (fun out t => out ++ g t) out = out ++ ts.flatMap g := by
  induction ts generalizing out with
  | nil => rw [List.foldl_nil, List.flatMap_nil, List.append_nil]
  | cons t ts ih => rw [List.foldl_cons, ih, List.flatMap_cons, List.append_assoc]

theorem foldl_new [DecidableEq α] (names out : List α) :
    names.foldl (fun out name => if name ∈ out then out else out ++ [name]) out =
      out ++ (Listing.firsts names).filter (· ∉ out) := by
  induction names generalizing out with
  | nil => rw [List.foldl_nil, Listing.firsts, List.filter_nil, List.append_nil]
  | cons name names ih =>
    rw [List.foldl_cons, ih, Listing.firsts, List.filter_cons, List.filter_filter]
    by_cases known : name ∈ out
    · rw [if_pos known, if_neg (by simpa using known)]
      congr 1
      apply List.filter_congr
      intro other _
      by_cases same : other = name
      · simp [same, known]
      · simp [same]
    · rw [if_neg known, if_pos (by simpa using known), List.append_assoc, List.singleton_append]
      congr 2
      apply List.filter_congr
      intro other _
      simp [Bool.and_comm]

theorem foldl_new_nil [DecidableEq α] (names : List α) :
    names.foldl (fun out name => if name ∈ out then out else out ++ [name]) [] =
      Listing.firsts names := by
  rw [foldl_new, List.nil_append]
  exact List.filter_eq_self.mpr fun name _ => by simp

end Collecting

end TreeWalks
