/-
# RoadNoise.Proofs.Taut -- what holds a taut string

Pulling a string taut is one scan with a stack.  The bottom of the stack is never
taken off, so the string keeps its first peg.  It keeps its last peg if no peg before
it lies within the tolerance of it; a peg that does can stand in its place.
-/
import RoadNoise.Proofs.Sequence
import RoadNoise.Plane.Hull

set_option autoImplicit false

namespace RoadNoise

namespace Hull

variable {β : Type}

/-! ## The stack -/

theorem slacken_suffix (superfluous : β → β → β → Bool) (p : β) (stack : List β) :
    slacken superfluous p stack <:+ stack := by
  fun_induction slacken superfluous p stack with
  | case1 b a rest off ih => exact ih.trans (List.suffix_cons b (a :: rest))
  | case2 b a rest off => exact List.suffix_refl _
  | case3 stack => exact List.suffix_refl _

theorem slacken_ne_nil (superfluous : β → β → β → Bool) (p : β) {stack : List β}
    (occupied : stack ≠ []) : slacken superfluous p stack ≠ [] := by
  fun_induction slacken superfluous p stack with
  | case1 b a rest off ih => exact ih (by simp)
  | case2 b a rest off => simp
  | case3 stack => exact occupied

theorem getLast?_slacken (superfluous : β → β → β → Bool) (p : β) (stack : List β) :
    (slacken superfluous p stack).getLast? = stack.getLast? := by
  cases stack with
  | nil => simp [slacken]
  | cons b rest =>
      obtain ⟨off, split⟩ := slacken_suffix superfluous p (b :: rest)
      have kept := slacken_ne_nil superfluous p (List.cons_ne_nil b rest)
      have whole := congrArg List.getLast? split
      rwa [List.getLast?_append_of_ne_nil off kept] at whole

/-! ## Pegs -/

namespace Peg

/-- No peg of the string lies within the tolerance of the next one. -/
def ClearOf (p : Peg ℝ) (string : List (Peg ℝ)) : Prop :=
  ∀ b ∈ string, Scalar.near b.abscissa p.abscissa = false

theorem getLast?_hang (p : Peg ℝ) {string : List (Peg ℝ)} (held : string ≠ []) :
    (hang string p).getLast? = string.getLast? := by
  have kept := getLast?_slacken sunken p string
  unfold hang
  split
  · rename_i last rest taut
    rw [taut] at kept
    split
    · exact kept
    · rw [List.getLast?_cons_cons]
      exact kept
  · rename_i taut
    exact absurd taut (slacken_ne_nil sunken p held)

theorem head?_hang {p : Peg ℝ} {string : List (Peg ℝ)} (clear : p.ClearOf string) :
    (hang string p).head? = some p := by
  unfold hang
  split
  · rename_i last rest taut
    have member : last ∈ string := by
      refine (slacken_suffix sunken p string).subset ?_
      simp [taut]
    simp [clear last member]
  · rfl

/-- A peg that leaves the uppermost one standing hangs on top of it, if it is clear of it. -/
theorem hang_of_stands {a b p : Peg ℝ} {rest : List (Peg ℝ)} (stands : sunken a b p = false) :
    hang (b :: a :: rest) p
      = if Scalar.near b.abscissa p.abscissa then b :: a :: rest else p :: b :: a :: rest := by
  rw [hang, slacken, stands]
  rfl

theorem hang_ne_nil (p : Peg ℝ) (string : List (Peg ℝ)) : hang string p ≠ [] := by
  unfold hang
  split
  · split <;> simp
  · simp

theorem mem_of_mem_hang {p b : Peg ℝ} {string : List (Peg ℝ)} (member : b ∈ hang string p) :
    b = p ∨ b ∈ string := by
  have taut := (slacken_suffix sunken p string).subset
  unfold hang at member
  split at member
  · rename_i last rest equation
    rw [equation] at taut
    split at member
    · exact .inr (taut member)
    · rcases List.mem_cons.1 member with rfl | later
      · exact .inl rfl
      · exact .inr (taut later)
  · exact .inl (List.mem_singleton.1 member)

/-! ## The string -/

theorem getLast?_foldl_hang (pegs : List (Peg ℝ)) {string : List (Peg ℝ)} (held : string ≠ []) :
    (pegs.foldl hang string).getLast? = string.getLast? := by
  induction pegs generalizing string with
  | nil => rfl
  | cons p pegs ih => rw [List.foldl_cons, ih (hang_ne_nil p string), getLast?_hang p held]

theorem mem_of_mem_foldl_hang {pegs string : List (Peg ℝ)} {b : Peg ℝ}
    (member : b ∈ pegs.foldl hang string) : b ∈ pegs ∨ b ∈ string := by
  induction pegs generalizing string with
  | nil => exact .inr member
  | cons p pegs ih =>
      rcases ih member with later | hung
      · exact .inl (List.mem_cons_of_mem p later)
      · rcases mem_of_mem_hang hung with rfl | held
        · exact .inl List.mem_cons_self
        · exact .inr held

/-- A string over a first and a last peg keeps both, if the last is clear of the rest. -/
theorem ends_foldl_hang (first last : Peg ℝ) (pegs : List (Peg ℝ))
    (clear : last.ClearOf (first :: pegs)) :
    ((first :: pegs ++ [last]).foldl hang []).getLast? = some first ∧
      ((first :: pegs ++ [last]).foldl hang []).head? = some last := by
  have start : hang [] first = [first] := by simp [hang, slacken]
  constructor
  · rw [List.cons_append, List.foldl_cons, start, getLast?_foldl_hang _ (by simp)]
    rfl
  · rw [List.foldl_append, List.foldl_cons, List.foldl_nil, List.foldl_cons, start]
    refine head?_hang fun b member => clear b ?_
    rcases mem_of_mem_foldl_hang member with hung | held
    · exact List.mem_cons_of_mem _ hung
    · simp [List.mem_singleton.1 held]

/-! ## Pegs in order -/

/-- The place of the peg with its height turned down. -/
def mirrored (p : Peg ℝ) : ℝ × ℝ := (p.abscissa, -p.height)

theorem isLE_order_iff (a b : Peg ℝ) : (order a b).isLE = true ↔
    a.abscissa < b.abscissa ∨ a.abscissa = b.abscissa ∧ b.height ≤ a.height :=
  Sequence.isLE_then_iff _ _ _ _

theorem pairwise_mirrored_sortOn (pegs : List (Peg ℝ)) :
    (Sequence.sortOn order pegs).Pairwise fun a b => toLex a.mirrored ≤ toLex b.mirrored := by
  refine Sequence.pairwise_sortOn_of_key (fun p => toLex p.mirrored) (fun a b => ?_) pegs
  rw [isLE_order_iff, Prod.Lex.toLex_le_toLex, mirrored, mirrored, neg_le_neg_iff]

theorem pairwise_abscissa_sortOn (pegs : List (Peg ℝ)) :
    (Sequence.sortOn order pegs).Pairwise fun a b => a.abscissa ≤ b.abscissa :=
  (pairwise_mirrored_sortOn pegs).imp fun before => Prod.Lex.monotone_fst _ _ before

end Peg

end Hull

end RoadNoise
