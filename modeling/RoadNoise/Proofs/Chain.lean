/-
# RoadNoise.Proofs.Chain -- the lower side of a hull

Hulls and taut strings are found by one scan with a stack over places in lexicographic
order.  A place is taken off the stack when it lies on or above the line from the place
below it to the new one, so nothing is lost with it: all that has been scanned stays on or
above the hull of the stack (`above_slacken`).  And what is left turns counter-clockwise
throughout, not only at its top, since turns add up along a chain that leads on
lexicographically (`turns_of_turns`).

These two facts are all that is known of a lower side (`LowerSide`), and all that is
needed: no place lies to the right of one of its edges (`LowerSide.left`), and its places
are corners of what lies on or above it (`LowerSide.corner`).

For places in whole millimetres the tolerances of the scans decide nothing
(`turn_le_eps_iff`, `near_iff_eq`), so what is shown of exact scans holds of them.
-/
import RoadNoise.Proofs.Hull
import RoadNoise.Proofs.Taut

set_option autoImplicit false

namespace RoadNoise.Hull

/-! ## Turns -/

section Turns

variable (a b c : ℝ × ℝ)

theorem turn_eq : turn a b c = (b.1 - a.1) * (c.2 - a.2) - (b.2 - a.2) * (c.1 - a.1) := rfl

theorem turn_rotate : turn b c a = turn a b c := by
  simp only [turn_eq]
  ring

theorem turn_swap : turn a c b = -turn a b c := by
  simp only [turn_eq]
  ring

theorem turn_flip : turn b a c = -turn a b c := by
  rw [← turn_rotate, turn_swap]

@[simp] theorem turn_left : turn a b a = 0 := by
  simp only [turn_eq]
  ring

@[simp] theorem turn_right : turn a b b = 0 := by
  simp only [turn_eq]
  ring

theorem turn_eq_doubleArea : turn a b c = doubleArea (spot a) (spot b) (spot c) := by
  simp only [turn_eq, doubleArea, spot]
  ring

end Turns

theorem convex_turn (a b : ℝ × ℝ) : Convex ℝ {q | 0 ≤ turn a b q} := by
  simpa only [turn_eq_doubleArea] using convex_left (spot a) (spot b)

/-- Nothing in the east is to the left of a step straight up. -/
theorem east_of_turn {a b c : ℝ × ℝ} (ab : toLex a < toLex b) (ac : a.1 ≤ c.1)
    (turns : 0 < turn a b c) : a.1 < b.1 := by
  rcases Prod.Lex.toLex_lt_toLex.1 ab with east | ⟨level, north⟩
  · exact east
  · rw [turn_eq, level, sub_self, zero_mul, zero_sub, neg_pos] at turns
    exact absurd turns (mul_nonneg (sub_nonneg.2 north.le) (sub_nonneg.2 (level ▸ ac))).not_gt

/-- Turns add up along four places that lead on. -/
theorem turns_of_turns {a b c d : ℝ × ℝ} (ab : a.1 ≤ b.1) (bc : toLex b < toLex c) (cd : c.1 ≤ d.1)
    (first : 0 < turn a b c) (second : 0 < turn b c d) : 0 < turn a b d ∧ 0 < turn a c d := by
  have run := east_of_turn bc ((Prod.Lex.monotone_fst _ _ bc.le).trans cd) second
  simp only [turn_eq] at *
  -- the turn from the first step to the last
  have outer : 0 ≤ (b.1 - a.1) * (d.2 - c.2) - (b.2 - a.2) * (d.1 - c.1) := by
    refine nonneg_of_mul_nonneg_right ?_ (sub_pos.2 run)
    have sum := add_nonneg (mul_nonneg first.le (sub_nonneg.2 cd))
      (mul_nonneg second.le (sub_nonneg.2 ab))
    linarith
  constructor <;> linarith

/-! ## Millimetres -/

/-- Both coordinates are whole numbers of thousandths. -/
def WholeMillimetres (q : ℝ × ℝ) : Prop := ∃ m n : ℤ, q = ((m : ℝ) / 1000, (n : ℝ) / 1000)

section Millimetres

theorem wholeMillimetres_metres (m n : ℤ) : WholeMillimetres (m, n) :=
  ⟨1000 * m, 1000 * n, by push_cast; simp⟩

/-- The tolerance is below what whole numbers of square millimetres come to. -/
theorem eps_lt_of_whole {x : ℝ} (k : ℤ) (whole : x = k / 1000000) (positive : 0 < x) :
    Scalar.eps < x := by
  have atLeast : (1 : ℝ) ≤ k := by
    have pos : (0 : ℝ) < k := by linarith
    exact_mod_cast pos
  rw [Scalar.eps_eq, whole]
  linarith

variable {a b p : ℝ × ℝ}

theorem turn_whole (wholeA : WholeMillimetres a) (wholeB : WholeMillimetres b)
    (wholeP : WholeMillimetres p) : ∃ k : ℤ, turn a b p = k / 1000000 := by
  obtain ⟨m, n, rfl⟩ := wholeA
  obtain ⟨m', n', rfl⟩ := wholeB
  obtain ⟨m'', n'', rfl⟩ := wholeP
  refine ⟨(m' - m) * (n'' - n) - (n' - n) * (m'' - m), ?_⟩
  rw [turn_eq]
  push_cast
  ring

theorem turn_le_eps_iff (wholeA : WholeMillimetres a) (wholeB : WholeMillimetres b)
    (wholeP : WholeMillimetres p) : turn a b p ≤ Scalar.eps ↔ turn a b p ≤ 0 := by
  obtain ⟨k, whole⟩ := turn_whole wholeA wholeB wholeP
  constructor
  · intro small
    by_contra positive
    exact (eps_lt_of_whole k whole (not_le.1 positive)).not_ge small
  · exact fun nonpositive => nonpositive.trans Scalar.eps_pos.le

theorem near_iff_eq {x y : ℝ} {m n : ℤ} (wholeX : x = m / 1000) (wholeY : y = n / 1000) :
    Scalar.near x y = true ↔ x = y := by
  rw [Scalar.near_iff]
  constructor
  · intro near
    by_contra other
    have apart : 0 < |x - y| := abs_pos.2 (sub_ne_zero.2 other)
    refine (eps_lt_of_whole (1000 * |m - n|) ?_ apart).not_gt near
    rw [wholeX, wholeY, ← sub_div, abs_div, abs_of_pos (by norm_num : (0 : ℝ) < 1000)]
    push_cast
    ring
  · rintro rfl
    simpa using Scalar.eps_pos

end Millimetres

/-! ## Places on or above -/

/-- The places on or above a place of the hull of some places. -/
def above (s : Set (ℝ × ℝ)) : Set (ℝ × ℝ) := {q | ∃ y, y ≤ q.2 ∧ (q.1, y) ∈ convexHull ℝ s}

/-- With a place the set has all places above it. -/
def Rising (k : Set (ℝ × ℝ)) : Prop := ∀ q ∈ k, ∀ y, q.2 ≤ y → (q.1, y) ∈ k

section Above

variable {s k : Set (ℝ × ℝ)} {a b p q v : ℝ × ℝ}

theorem convexHull_subset_above (s : Set (ℝ × ℝ)) : convexHull ℝ s ⊆ above s :=
  fun q inside => ⟨q.2, le_rfl, inside⟩

theorem subset_above (s : Set (ℝ × ℝ)) : s ⊆ above s :=
  (subset_convexHull ℝ s).trans (convexHull_subset_above s)

theorem rising_above (s : Set (ℝ × ℝ)) : Rising (above s) :=
  fun _ ⟨y, low, inside⟩ _ higher => ⟨y, low.trans higher, inside⟩

theorem convex_above (s : Set (ℝ × ℝ)) : Convex ℝ (above s) := by
  rintro p ⟨y, low, inside⟩ q ⟨y', low', inside'⟩ u w first second whole
  refine ⟨u * y + w * y', ?_, convex_convexHull ℝ s inside inside' first second whole⟩
  exact add_le_add (mul_le_mul_of_nonneg_left low first) (mul_le_mul_of_nonneg_left low' second)

/-- What lies on or above some places is the least convex rising set that has them. -/
theorem above_subset (convex : Convex ℝ k) (rising : Rising k) (sub : s ⊆ k) : above s ⊆ k :=
  fun _ ⟨_, low, inside⟩ => rising _ (convexHull_min sub convex inside) _ low

theorem above_mono (sub : s ⊆ above k) : above s ⊆ above k :=
  above_subset (convex_above k) (rising_above k) sub

/-- The height over an abscissa of the line through two places. -/
noncomputable def lineHeight (a b : ℝ × ℝ) (x : ℝ) : ℝ :=
  a.2 + (x - a.1) / (b.1 - a.1) * (b.2 - a.2)

theorem lineHeight_mem_segment {x : ℝ} (wide : a.1 < b.1) (first : a.1 ≤ x) (last : x ≤ b.1) :
    (x, lineHeight a b x) ∈ segment ℝ a b := by
  have long : 0 < b.1 - a.1 := sub_pos.2 wide
  rw [segment_eq_image']
  refine ⟨(x - a.1) / (b.1 - a.1), ⟨div_nonneg (sub_nonneg.2 first) long.le, ?_⟩, ?_⟩
  · exact (div_le_one long).2 (sub_le_sub_right last _)
  · refine Prod.ext ?_ ?_
    · simp only [Prod.fst_add, Prod.smul_fst, Prod.fst_sub, smul_eq_mul]
      rw [div_mul_cancel₀ _ long.ne', add_sub_cancel]
    · simp only [lineHeight, Prod.snd_add, Prod.smul_snd, Prod.snd_sub, smul_eq_mul]

theorem lineHeight_le_iff (wide : a.1 < b.1) : lineHeight a b q.1 ≤ q.2 ↔ 0 ≤ turn a b q := by
  rw [lineHeight, turn_eq, ← le_sub_iff_add_le', div_mul_eq_mul_div, div_le_iff₀ (sub_pos.2 wide),
    sub_nonneg, mul_comm (q.1 - a.1), mul_comm (q.2 - a.2)]

/-- A place that stands no lower than the line between two others lies on or above them. -/
theorem mem_above_of_turn (ab : toLex a ≤ toLex b) (bp : toLex b ≤ toLex p)
    (dented : turn a b p ≤ 0) : b ∈ above {a, p} := by
  have first : a.1 ≤ b.1 := Prod.Lex.monotone_fst _ _ ab
  have second : b.1 ≤ p.1 := Prod.Lex.monotone_fst _ _ bp
  rcases (first.trans second).eq_or_lt with upright | wide
  · have level : a.1 = b.1 := by linarith
    have higher : a.2 ≤ b.2 := by
      rcases Prod.Lex.toLex_le_toLex.1 ab with east | ⟨-, north⟩
      · exact absurd level east.ne
      · exact north
    exact ⟨a.2, higher, level ▸ subset_convexHull ℝ _ (Set.mem_insert a {p})⟩
  · refine ⟨lineHeight a p b.1, (lineHeight_le_iff wide).2 ?_, ?_⟩
    · rwa [turn_swap, neg_nonneg]
    · rw [convexHull_pair]
      exact lineHeight_mem_segment wide first second

end Above

/-! ## The stack -/

/-- The place `b` between `a` and `p` is no corner of a lower side. -/
noncomputable def dented (a b p : ℝ × ℝ) : Bool := decide (turn a b p ≤ 0)

/-- A stack of places that lead on to its top and turn counter-clockwise throughout. -/
structure Bent (stack : List (ℝ × ℝ)) : Prop where
  onwards : stack.Pairwise fun b a => toLex a < toLex b
  turns : stack.Triplewise fun c b a => 0 < turn a b c

section Stack

variable {β : Type} {stack kept l : List (ℝ × ℝ)} {p : ℝ × ℝ}

/-- What stays uppermost is not superfluous. -/
theorem stands_of_slacken {superfluous : β → β → β → Bool} {p b a : β} {stack rest : List β}
    (taut : slacken superfluous p stack = b :: a :: rest) : superfluous a b p = false := by
  fun_induction slacken superfluous p stack with
  | case1 b' a' rest' off ih => exact ih taut
  | case2 b' a' rest' off =>
      obtain ⟨rfl, rfl, -⟩ : b' = b ∧ a' = a ∧ rest' = rest := by simpa using taut
      simpa using off
  | case3 stack short => exact absurd taut (short b a rest)

theorem slacken_map {γ : Type} {superfluous : β → β → β → Bool} {superfluous' : γ → γ → γ → Bool}
    {f : β → γ} {p : β} {stack : List β} (alike : ∀ a ∈ stack, ∀ b ∈ stack,
      superfluous a b p = superfluous' (f a) (f b) (f p)) :
    (slacken superfluous p stack).map f = slacken superfluous' (f p) (stack.map f) := by
  fun_induction slacken superfluous p stack with
  | case1 b a rest off ih =>
      rw [List.map_cons, List.map_cons, slacken, ← alike a (by simp) b (by simp), if_pos off,
        ← List.map_cons]
      exact ih fun c member d other => alike c (by simp [member]) d (by simp [other])
  | case2 b a rest off =>
      rw [List.map_cons, List.map_cons, slacken, ← alike a (by simp) b (by simp), if_neg off]
  | case3 stack short =>
      cases stack with
      | nil => simp [slacken]
      | cons b rest =>
          cases rest with
          | nil => simp [slacken]
          | cons a rest => exact absurd rfl (short b a rest)

theorem Bent.suffix (bent : Bent stack) (rest : kept <:+ stack) : Bent kept := by
  obtain ⟨off, rfl⟩ := rest
  exact ⟨(List.pairwise_append.1 bent.onwards).2.1, (List.triplewise_append.1 bent.turns).2.1⟩

/-- A place beyond all others comes on top of those that it does not make superfluous. -/
theorem Bent.push (bent : Bent stack) (beyond : ∀ b ∈ stack, toLex b < toLex p)
    (stands : ∀ b a rest, stack = b :: a :: rest → 0 < turn a b p) : Bent (p :: stack) := by
  refine ⟨List.pairwise_cons.2 ⟨beyond, bent.onwards⟩,
    List.triplewise_cons.2 ⟨?_, bent.turns⟩⟩
  have east : ∀ {x y : ℝ × ℝ}, toLex x < toLex y → x.1 ≤ y.1 := fun before =>
    Prod.Lex.monotone_fst _ _ before.le
  match stack, bent, beyond, stands with
  | [], _, _, _ => exact .nil
  | [b], _, _, _ => exact List.pairwise_singleton _ _
  | b :: c :: rest, bent, beyond, stands =>
      have turn : 0 < turn c b p := stands b c rest rfl
      obtain ⟨before, onwards⟩ := List.pairwise_cons.1 bent.onwards
      obtain ⟨turns, -⟩ := List.triplewise_cons.1 bent.turns
      have last : p.1 ≥ b.1 := east (beyond b (by simp))
      -- the way to the top and on turns, from wherever it comes
      have top : ∀ a ∈ c :: rest, 0 < Hull.turn a b p := by
        intro a member
        rcases List.mem_cons.1 member with rfl | later
        · exact turn
        · exact (turns_of_turns (east ((List.pairwise_cons.1 onwards).1 a later))
            (before c (by simp)) last ((List.pairwise_cons.1 turns).1 a later) turn).2
      refine List.pairwise_cons.2 ⟨top, ?_⟩
      refine (turns.and onwards).imp_of_mem fun {d a} second first both => ?_
      exact (turns_of_turns (east both.2) (before d second) last both.1 (top d second)).1

/-- Nothing is lost with what is taken off the stack. -/
theorem above_slacken (onwards : stack.Pairwise fun b a => toLex a < toLex b)
    (after : ∀ b ∈ stack, toLex b ≤ toLex p) :
    above {v | v ∈ p :: stack} ⊆ above {v | v ∈ p :: slacken dented p stack} := by
  fun_induction slacken dented p stack with
  | case1 b a rest off ih =>
      obtain ⟨before, onwards⟩ := List.pairwise_cons.1 onwards
      refine (above_mono ?_).trans (ih onwards fun c member => after c (by simp [member]))
      intro v member
      rcases List.mem_cons.1 member with rfl | member
      · exact subset_above _ (by simp)
      rcases List.mem_cons.1 member with rfl | member
      · have pair : above {a, p} ⊆ above {v | v ∈ p :: a :: rest} := by
          refine above_mono (Set.Subset.trans ?_ (subset_above _))
          rintro w (rfl | rfl) <;> simp
        exact pair (mem_above_of_turn (before a (by simp)).le (after v (by simp))
          (of_decide_eq_true off))
      · exact subset_above _ (List.mem_cons_of_mem _ member)
  | case2 b a rest off => exact subset_rfl
  | case3 stack short => exact subset_rfl

/-- What a stack keeps of a list of places: some of them, bent, and with all others on or
above. -/
structure Keeps (l stack : List (ℝ × ℝ)) : Prop where
  mem : ∀ v ∈ stack, v ∈ l
  bent : Bent stack
  below : {q | q ∈ l} ⊆ above {v | v ∈ stack}

theorem Keeps.above_concat (keeps : Keeps l stack) (after : ∀ b ∈ stack, toLex b ≤ toLex p) :
    {q | q ∈ l ++ [p]} ⊆ above {v | v ∈ p :: slacken dented p stack} := by
  refine Set.Subset.trans ?_ (above_slacken keeps.bent.onwards after)
  intro q member
  rcases List.mem_append.1 member with earlier | last
  · exact above_mono (Set.Subset.trans (fun v => List.mem_cons_of_mem p) (subset_above _))
      (keeps.below earlier)
  · exact subset_above _ (by simp [List.mem_singleton.1 last])

theorem Keeps.push (keeps : Keeps l stack) (after : ∀ b ∈ stack, toLex b ≤ toLex p)
    (beyond : ∀ b ∈ slacken dented p stack, toLex b < toLex p) :
    Keeps (l ++ [p]) (p :: slacken dented p stack) := by
  have kept := slacken_suffix dented p stack
  refine ⟨?_, (keeps.bent.suffix kept).push beyond ?_, keeps.above_concat after⟩
  · intro v member
    rcases List.mem_cons.1 member with rfl | held
    · simp
    · exact List.mem_append_left _ (keeps.mem v (kept.subset held))
  · intro b a rest taut
    simpa [dented] using stands_of_slacken taut

/-- A place straight above the top need not be kept. -/
theorem Keeps.skip (keeps : Keeps l stack) (after : ∀ b ∈ stack, toLex b ≤ toLex p) {last : ℝ × ℝ}
    {rest : List (ℝ × ℝ)} (taut : slacken dented p stack = last :: rest) (level : last.1 = p.1) :
    Keeps (l ++ [p]) (last :: rest) := by
  have kept : last :: rest <:+ stack := taut ▸ slacken_suffix dented p stack
  have higher : last.2 ≤ p.2 := by
    rcases Prod.Lex.toLex_le_toLex.1 (after last (kept.subset (by simp))) with east | ⟨-, north⟩
    · exact absurd level east.ne
    · exact north
  refine ⟨fun v held => List.mem_append_left _ (keeps.mem v (kept.subset held)),
    keeps.bent.suffix kept, (keeps.above_concat after).trans (above_mono ?_)⟩
  rw [taut]
  intro v member
  rcases List.mem_cons.1 member with rfl | held
  · have top : last ∈ above {v | v ∈ last :: rest} := subset_above _ (by simp)
    rw [← Prod.mk.eta (p := v), ← level]
    exact rising_above _ last top _ higher
  · exact subset_above _ held

end Stack

/-! ## Corners -/

section Corners

variable {s k : Set (ℝ × ℝ)} {a b v : ℝ × ℝ}

theorem mem_extremePoints_of_subset (corner : v ∈ k.extremePoints ℝ) (member : v ∈ s)
    (sub : s ⊆ k) : v ∈ s.extremePoints ℝ :=
  inter_extremePoints_subset_extremePoints_of_subset sub ⟨member, corner⟩

/-- A corner of what lies on or above some places is one of them. -/
theorem mem_of_mem_extremePoints_above (corner : v ∈ (above s).extremePoints ℝ) : v ∈ s := by
  obtain ⟨y, low, inside⟩ := corner.1
  rcases low.eq_or_lt with level | below
  · rw [level, Prod.mk.eta] at inside
    exact extremePoints_convexHull_subset
      (mem_extremePoints_of_subset corner inside (convexHull_subset_above s))
  · -- a place with others straight below and above it is no corner
    have other := corner.2 (convexHull_subset_above s inside)
      (rising_above s v corner.1 (v.2 + (v.2 - y)) (by linarith))
      ⟨1 / 2, 1 / 2, by norm_num, by norm_num, by norm_num, Prod.ext
        (by simp only [Prod.fst_add, Prod.smul_fst, smul_eq_mul]; ring)
        (by simp only [Prod.snd_add, Prod.smul_snd, smul_eq_mul]; ring)⟩
    exact absurd (congrArg Prod.snd other) below.ne

/-- A place where two lines turn is a corner of what lies to the left of both. -/
theorem corner_of_turn (turns : 0 < turn a v b) :
    v ∈ ({q | 0 ≤ turn a v q} ∩ {q | 0 ≤ turn v b q}).extremePoints ℝ := by
  have affine : ∀ (o p x y : ℝ × ℝ) {m n : ℝ}, m + n = 1 →
      turn o p (m • x + n • y) = m * turn o p x + n * turn o p y := by
    intro o p x y m n whole
    simp only [turn_eq_doubleArea]
    exact doubleArea_combo _ _ x y whole
  refine ⟨by simp, ?_⟩
  rintro x ⟨firstX, secondX⟩ y ⟨firstY, secondY⟩ ⟨m, n, posM, posN, whole, between⟩
  rw [Set.mem_ofPred_eq] at firstX secondX firstY secondY
  -- no turn at `x` from either line
  have level : ∀ o p : ℝ × ℝ, turn o p v = 0 → 0 ≤ turn o p x → 0 ≤ turn o p y →
      turn o p x = 0 := by
    intro o p onLine atX atY
    rw [← between, affine o p x y whole] at onLine
    have first := mul_nonneg posM.le atX
    have second := mul_nonneg posN.le atY
    exact (mul_eq_zero.1 (by linarith : m * turn o p x = 0)).resolve_left posM.ne'
  have onFirst := level a v (turn_right a v) firstX firstY
  have onSecond := level v b (turn_left v b) secondX secondY
  have solid := turns.ne'
  simp only [turn_eq] at onFirst onSecond solid
  refine Prod.ext ?_ ?_
  · have product : ((v.1 - a.1) * (b.2 - a.2) - (v.2 - a.2) * (b.1 - a.1)) * (x.1 - v.1) = 0 := by
      linear_combination (b.1 - v.1) * onFirst - (v.1 - a.1) * onSecond
    linarith [(mul_eq_zero.1 product).resolve_left solid]
  · have product : ((v.1 - a.1) * (b.2 - a.2) - (v.2 - a.2) * (b.1 - a.1)) * (x.2 - v.2) = 0 := by
      linear_combination (b.2 - v.2) * onFirst - (v.2 - a.2) * onSecond
    linarith [(mul_eq_zero.1 product).resolve_left solid]

/-- The places beyond a place in one direction along the first axis, and those straight
above it. -/
def beyond (direction : ℝ) (v : ℝ × ℝ) : Set (ℝ × ℝ) :=
  {q | direction * v.1 < direction * q.1 ∨ q.1 = v.1 ∧ v.2 ≤ q.2}

theorem rising_beyond (direction : ℝ) (v : ℝ × ℝ) : Rising (beyond direction v) := by
  rintro q (far | ⟨level, north⟩) y higher
  · exact .inl far
  · exact .inr ⟨level, north.trans higher⟩

theorem le_of_mem_beyond {direction : ℝ} {q : ℝ × ℝ} (member : q ∈ beyond direction v) :
    direction * v.1 ≤ direction * q.1 := by
  rcases member with far | ⟨level, -⟩
  · exact far.le
  · rw [level]

theorem convex_beyond (direction : ℝ) (v : ℝ × ℝ) : Convex ℝ (beyond direction v) := by
  refine convex_iff_openSegment_subset.2 fun x first y second => ?_
  rintro _ ⟨m, n, posM, posN, whole, rfl⟩
  obtain rfl : n = 1 - m := by linarith
  have farX := le_of_mem_beyond first
  have farY := le_of_mem_beyond second
  simp only [beyond, Set.mem_ofPred_eq, Prod.fst_add, Prod.snd_add, Prod.smul_fst, Prod.smul_snd,
    smul_eq_mul]
  rcases first with far | ⟨level, north⟩
  · left
    nlinarith
  · rcases second with far' | ⟨level', north'⟩
    · left
      nlinarith
    · right
      rw [level, level']
      constructor <;> nlinarith

theorem corner_beyond {direction : ℝ} (forwards : direction ≠ 0) (v : ℝ × ℝ) :
    v ∈ (beyond direction v).extremePoints ℝ := by
  refine ⟨.inr ⟨rfl, le_rfl⟩, ?_⟩
  rintro x first y second ⟨m, n, posM, posN, whole, rfl⟩
  obtain rfl : n = 1 - m := by linarith
  have farX := le_of_mem_beyond first
  have farY := le_of_mem_beyond second
  simp only [Prod.fst_add, Prod.smul_fst, smul_eq_mul] at farX farY
  have level : x.1 = y.1 := by
    refine mul_left_cancel₀ forwards (le_antisymm ?_ ?_) <;> nlinarith
  simp only [beyond, Set.mem_ofPred_eq, Prod.fst_add, Prod.snd_add, Prod.smul_fst, Prod.smul_snd,
    smul_eq_mul, level] at first second
  have same : m * y.1 + (1 - m) * y.1 = y.1 := by ring
  simp only [same, lt_self_iff_false, true_and, false_or] at first second
  have height : x.2 = y.2 := by nlinarith
  refine Prod.ext ?_ ?_
  · simp only [Prod.fst_add, Prod.smul_fst, smul_eq_mul, level]
    ring
  · simp only [Prod.snd_add, Prod.smul_snd, smul_eq_mul, height]
    ring

end Corners

/-! ## Lower sides -/

/-- The lower side of the hull of some places, from its first place on. -/
structure LowerSide (places : Set (ℝ × ℝ)) (side : List (ℝ × ℝ)) : Prop where
  mem : ∀ v ∈ side, v ∈ places
  onwards : side.Pairwise fun a b => toLex a < toLex b
  turns : side.Triplewise fun a b c => 0 < turn a b c
  below : places ⊆ above {v | v ∈ side}

theorem Keeps.lowerSide {l stack : List (ℝ × ℝ)} (keeps : Keeps l stack) :
    LowerSide {q | q ∈ l} stack.reverse where
  mem v member := keeps.mem v (List.mem_reverse.1 member)
  onwards := List.pairwise_reverse.2 keeps.bent.onwards
  turns := List.triplewise_reverse.2 keeps.bent.turns
  below := by simpa only [List.mem_reverse] using keeps.below

namespace LowerSide

variable {places k : Set (ℝ × ℝ)} {side front back : List (ℝ × ℝ)} {a b v : ℝ × ℝ}

/-- What is convex and rising and has the side has all places. -/
theorem above_subset (lower : LowerSide places side) (convex : Convex ℝ k) (rising : Rising k)
    (sub : ∀ v ∈ side, v ∈ k) : above places ⊆ k :=
  (above_mono lower.below).trans (Hull.above_subset convex rising sub)

/-- The first place of the side is the first of all. -/
theorem mem_beyond_first (lower : LowerSide places (v :: back)) :
    above places ⊆ beyond 1 v := by
  refine lower.above_subset (convex_beyond 1 v) (rising_beyond 1 v) fun q member => ?_
  rcases List.mem_cons.1 member with rfl | later
  · exact .inr ⟨rfl, le_rfl⟩
  · have before := (List.pairwise_cons.1 lower.onwards).1 q later
    rcases Prod.Lex.toLex_lt_toLex.1 before with east | ⟨level, north⟩
    · exact .inl (by linarith)
    · exact .inr ⟨level.symm, north.le⟩

theorem first_le (lower : LowerSide places (v :: back)) {q : ℝ × ℝ} (member : q ∈ places) :
    toLex v ≤ toLex q := by
  rw [Prod.Lex.toLex_le_toLex]
  rcases lower.mem_beyond_first (subset_above _ member) with east | ⟨level, north⟩
  · exact .inl (by linarith)
  · exact .inr ⟨level.symm, north⟩

/-- A side turns to the left of each of its edges. -/
theorem turn_nonneg (lower : LowerSide places (front ++ a :: b :: back)) :
    ∀ v ∈ front ++ a :: b :: back, 0 ≤ turn a b v := by
  obtain ⟨-, rest, earlier, -⟩ := List.triplewise_append.1 lower.turns
  intro v member
  simp only [List.mem_append, List.mem_cons] at member
  rcases member with before | rfl | rfl | after
  · rw [turn_rotate v]
    exact ((List.pairwise_cons.1 (earlier v before)).1 b (by simp)).le
  · simp
  · simp
  · exact ((List.pairwise_cons.1 (List.triplewise_cons.1 rest).1).1 v after).le

/-- No place lies to the right of an edge of the side. -/
theorem left (lower : LowerSide places (front ++ a :: b :: back)) :
    above places ⊆ {q | 0 ≤ turn a b q} := by
  refine lower.above_subset (convex_turn a b) ?_ lower.turn_nonneg
  intro q onLeft y higher
  have forwards : toLex a < toLex b :=
    (List.pairwise_cons.1 (List.pairwise_append.1 lower.onwards).2.1).1 b (by simp)
  have east : a.1 ≤ b.1 := Prod.Lex.monotone_fst _ _ forwards.le
  simp only [Set.mem_ofPred_eq, turn_eq] at onLeft ⊢
  nlinarith

/-- The places of a side are corners of what lies on or above all places, but for the last
one, which may have the others straight below it. -/
theorem corner (lower : LowerSide places (front ++ v :: b :: back)) :
    v ∈ (above places).extremePoints ℝ := by
  have member : v ∈ above places := subset_above _ (lower.mem v (by simp))
  rcases List.eq_nil_or_concat front with rfl | ⟨front, a, rfl⟩
  · exact mem_extremePoints_of_subset (corner_beyond one_ne_zero v) member lower.mem_beyond_first
  · rw [List.concat_eq_append, List.append_assoc, List.singleton_append] at lower
    have turn : 0 < turn a v b := by
      have rest := (List.triplewise_append.1 lower.turns).2.1
      exact (List.pairwise_cons.1 (List.triplewise_cons.1 rest).1).1 b (by simp)
    have second := lower.left
    rw [List.append_cons] at lower
    exact mem_extremePoints_of_subset (corner_of_turn turn) member
      (Set.subset_inter second lower.left)

end LowerSide

end RoadNoise.Hull
