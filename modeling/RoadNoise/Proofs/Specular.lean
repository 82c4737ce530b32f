/-
# RoadNoise.Proofs.Specular -- paths by way of walls are mirror images

Walking back from the receiver towards the images lays out a way that is straight when
unfolded.  Seen from above, each step of the walk keeps two facts (`walkBack_spec`): the
point before the target lies on the straight line to the last image, and the way so far is
as long as that line.  Both need only that images keep distances from their wall.  Grading
adds the same slope to every leg, so the way is straight in space as well and its length is
that of the unfolded line.
-/
import RoadNoise.Proofs.Lookup
import RoadNoise.Proofs.Mirror
import RoadNoise.Proofs.Sight
import RoadNoise.Proofs.Ways

set_option autoImplicit false

namespace RoadNoise

/-! ## Sides of a wall -/

namespace Wall

/-- The place a step off the middle of the wall, on the side that has the sign of
`side`. -/
noncomputable def beside (w : Wall ℝ) (side : ℝ) : Point ℝ :=
  let middle := Point.between w.p0 w.p1 0.5
  let dx := w.p1.x - w.p0.x
  let dy := w.p1.y - w.p0.y
  let length := Scalar.hypot dx dy
  ⟨middle.x - Scalar.sign side * dy / length * sideStep,
    middle.y + Scalar.sign side * dx / length * sideStep, middle.z⟩

theorem sign_eq_of_mul_pos {x y : ℝ} (same : 0 < x * y) : Scalar.sign x = Scalar.sign y := by
  unfold Scalar.sign
  rcases pos_and_pos_or_neg_and_neg_of_mul_pos same with ⟨hx, hy⟩ | ⟨hx, hy⟩
  · rw [if_neg hx.not_gt, if_pos hx, if_neg hy.not_gt, if_pos hy]
  · rw [if_pos hx, if_pos hy]

theorem beside_eq_of_mul_pos (w : Wall ℝ) {x y : ℝ} (same : 0 < x * y) :
    w.beside x = w.beside y := by
  rw [beside, beside, sign_eq_of_mul_pos same]

theorem sign_mul_pos {x : ℝ} (aside : x ≠ 0) : 0 < Scalar.sign x * x := by
  unfold Scalar.sign
  rcases lt_or_gt_of_ne aside with below | above
  · rw [if_pos below]
    linarith
  · rw [if_neg above.not_gt, if_pos above]
    linarith

/-- The place beside a wall is on the side it is meant to be on. -/
theorem sideOf_beside_mul_pos (w : Wall ℝ) {side : ℝ} (aside : side ≠ 0)
    (solid : 0 < (w.p1.x - w.p0.x) * (w.p1.x - w.p0.x) + (w.p1.y - w.p0.y) * (w.p1.y - w.p0.y)) :
    0 < (w.beside side).sideOf w.p0 w.p1 * side := by
  have square : 0 < (w.p1.x - w.p0.x) ^ 2 + (w.p1.y - w.p0.y) ^ 2 := by
    simpa only [sq] using solid
  have long : 0 < Scalar.hypot (w.p1.x - w.p0.x) (w.p1.y - w.p0.y) := Real.sqrt_pos.2 square
  have step : (0 : ℝ) < sideStep := by norm_num [sideStep]
  have place : (w.beside side).sideOf w.p0 w.p1
      = Scalar.sign side * (sideStep / Scalar.hypot (w.p1.x - w.p0.x) (w.p1.y - w.p0.y)
        * ((w.p1.x - w.p0.x) ^ 2 + (w.p1.y - w.p0.y) ^ 2)) := by
    simp only [Point.sideOf_eq, beside, Point.between]
    field_simp
    ring
  rw [place, mul_right_comm]
  exact mul_pos (sign_mul_pos aside) (mul_pos (div_pos step long) square)

end Wall

namespace Scene

/-- A wall that faces a place has the place off its line, and the building behind it. -/
theorem faces_spec {s : Scene ℝ} {wall : Wall ℝ} {p : Point ℝ} (faces : s.faces wall p = true) :
    Scalar.eps ≤ |p.sideOf wall.p0 wall.p1| ∧
      ∀ building, s.buildings[wall.building]? = some building →
        building.outline.contains (wall.beside (p.sideOf wall.p0 wall.p1)) = false := by
  unfold Scene.faces at faces
  dsimp only at faces
  split_ifs at faces with near
  refine ⟨not_lt.1 near, fun building entry => ?_⟩
  rw [entry] at faces
  exact Bool.not_eq_true' _ ▸ faces

end Scene

/-! ## Reflections seen from above -/

/-- A relation that holds along a way: at the point after the `k`-th one for the `k`-th
wall, with the points before and after. -/
def Along {γ : Type} (related : γ → Point ℝ → Point ℝ → Point ℝ → Prop) (walls : List γ)
    (way : List (Point ℝ)) : Prop :=
  ∀ (k : Nat) w before place after, walls[k]? = some w → way[k]? = some before →
    way[k + 1]? = some place → way[k + 2]? = some after → related w before place after

/-- A way continued by one point, over one more wall. -/
theorem Along.concat {γ : Type} {related : γ → Point ℝ → Point ℝ → Point ℝ → Prop}
    {walls : List γ} {front : List (Point ℝ)} {before place after : Point ℝ} {w : γ}
    (along : Along related walls (front ++ [before, place]))
    (length : front.length = walls.length) (next : related w before place after) :
    Along related (walls ++ [w]) (front ++ [before, place] ++ [after]) := by
  intro k v a b c isWall isBefore isPlace isAfter
  rcases lt_trichotomy k walls.length with earlier | rfl | later
  · rw [List.getElem?_append_left earlier] at isWall
    rw [List.getElem?_append_left (by simp; omega)] at isBefore isPlace isAfter
    exact along k v a b c isWall isBefore isPlace isAfter
  · simp only [List.getElem?_concat_length, Option.some.injEq] at isWall
    rw [List.append_assoc, ← length] at isBefore isPlace isAfter
    rw [List.getElem?_append_right (by omega)] at isBefore isPlace isAfter
    simp at isBefore isPlace isAfter
    subst isWall isBefore isPlace isAfter
    exact next
  · rw [List.getElem?_eq_none (by simp; omega)] at isWall
    simp at isWall

/-- Seen from above, the way from `before` to `after` is reflected by the wall at
`place`. -/
structure ReflectedInPlan (s : Scene ℝ) (wall : Wall ℝ) (before place after : Point ℝ) :
    Prop where
  onLine : place.sideOf wall.p0 wall.p1 = 0
  sameSide : 0 < before.sideOf wall.p0 wall.p1 * after.sideOf wall.p0 wall.p1
  solid : 0 < (wall.p1.x - wall.p0.x) * (wall.p1.x - wall.p0.x)
    + (wall.p1.y - wall.p0.y) * (wall.p1.y - wall.p0.y)
  outside : ∀ building, s.buildings[wall.building]? = some building →
    building.outline.contains (wall.beside (before.sideOf wall.p0 wall.p1)) = false
  straight : ∃ image u, before.image? wall.p0 wall.p1 = some image ∧ image.z = before.z ∧
    (0 < u ∧ u < 1) ∧ place.Above (Point.between after image u)

namespace Scene

variable {s : Scene ℝ} {source : Point ℝ}

/-- The sequence was put together wall by wall. -/
def Chained (s : Scene ℝ) (source : Point ℝ) : List (Bounce ℝ) → Prop
  | [] => True
  | b :: earlier => s.extension? source earlier b.number b.wall = some b ∧ s.Chained source earlier

theorem chained_of_extended? {walls : List (Nat × Wall ℝ)} {sequence whole : List (Bounce ℝ)}
    (extended : s.extended? source sequence walls = some whole)
    (chained : s.Chained source sequence) : s.Chained source whole := by
  induction walls generalizing sequence with
  | nil =>
      obtain rfl : sequence = whole := by simpa [extended?] using extended
      exact chained
  | cons first rest ih =>
      obtain ⟨b, extension, later⟩ := Option.bind_eq_some_iff.1 extended
      refine ih later ⟨?_, chained⟩
      obtain ⟨-, -, next, -, rfl⟩ := extension?_eq_some_iff.1 extension
      exact extension

section Turn

variable {wall : Wall ℝ} {last image target place before : Point ℝ} {t u : ℝ}

/-- Turning at a wall keeps the way on the side of the last image. -/
theorem sameSide_of_turn (off : last.sideOf wall.p0 wall.p1 ≠ 0)
    (imaged : last.image? wall.p0 wall.p1 = some image)
    (onLine : place.sideOf wall.p0 wall.p1 = 0)
    (inner : 0 < t ∧ t < 1) (turns : place.Above (Point.between target image t))
    (forwards : 0 < u) (comes : before.Above (Point.between place last u)) :
    0 < before.sideOf wall.p0 wall.p1 * last.sideOf wall.p0 wall.p1 ∧
      0 < before.sideOf wall.p0 wall.p1 * target.sideOf wall.p0 wall.p1 := by
  obtain ⟨start, stop⟩ := inner
  have ofImage := Point.sideOf_image? imaged
  have ofBefore : before.sideOf wall.p0 wall.p1 = u * last.sideOf wall.p0 wall.p1 := by
    rw [comes.sideOf_eq, Point.sideOf_between, onLine]
    ring
  have ofTarget : (1 - t) * target.sideOf wall.p0 wall.p1 = t * last.sideOf wall.p0 wall.p1 := by
    have zero := onLine
    rw [turns.sideOf_eq, Point.sideOf_between, ofImage] at zero
    linarith
  have square : 0 < last.sideOf wall.p0 wall.p1 * last.sideOf wall.p0 wall.p1 :=
    mul_self_pos.2 off
  constructor
  · rw [ofBefore, mul_assoc]
    exact mul_pos forwards square
  · have scaled : (1 - t) * (before.sideOf wall.p0 wall.p1 * target.sideOf wall.p0 wall.p1)
        = u * t * (last.sideOf wall.p0 wall.p1 * last.sideOf wall.p0 wall.p1) := by
      rw [ofBefore]
      linear_combination u * last.sideOf wall.p0 wall.p1 * ofTarget
    refine (mul_pos_iff_of_pos_left (sub_pos.2 stop)).1 ?_
    rw [scaled]
    positivity

/-- The image of the point before a turn lies beyond the place, on the line to the last
image. -/
theorem straight_of_turn (imaged : last.image? wall.p0 wall.p1 = some image)
    (onLine : place.sideOf wall.p0 wall.p1 = 0)
    (inner : 0 < t ∧ t < 1) (turns : place.Above (Point.between target image t))
    (forwards : 0 < u) (comes : before.Above (Point.between place last u)) :
    ∃ mirrored v, before.image? wall.p0 wall.p1 = some mirrored ∧ mirrored.z = before.z ∧
      (0 < v ∧ v < 1) ∧ place.Above (Point.between target mirrored v) := by
  obtain ⟨start, stop⟩ := inner
  obtain ⟨mirrored, isImage, ⟨placeX, placeY⟩, level⟩ :=
    Point.exists_image?_between imaged onLine comes
  have reach : 0 < t + u * (1 - t) := by nlinarith
  refine ⟨mirrored, t / (t + u * (1 - t)), isImage, level, ⟨div_pos start reach, ?_⟩, ?_⟩
  · rw [div_lt_one reach]
    nlinarith
  · obtain ⟨turnX, turnY⟩ := turns
    simp only [Point.between] at placeX placeY turnX turnY
    constructor
    · simp only [Point.between]
      rw [placeX, turnX]
      field_simp
      ring
    · simp only [Point.between]
      rw [placeY, turnY]
      field_simp
      ring

/-- Turning at a wall towards the image before it reflects the way. -/
theorem reflectedInPlan_of_turn (faces : s.faces wall last = true)
    (imaged : last.image? wall.p0 wall.p1 = some image)
    (onLine : place.sideOf wall.p0 wall.p1 = 0)
    (inner : 0 < t ∧ t < 1) (turns : place.Above (Point.between target image t))
    (forwards : 0 < u) (comes : before.Above (Point.between place last u)) :
    ReflectedInPlan s wall before place target := by
  obtain ⟨far, outside⟩ := faces_spec faces
  have off : last.sideOf wall.p0 wall.p1 ≠ 0 := by
    intro zero
    rw [zero, abs_zero] at far
    exact far.not_gt Scalar.eps_pos
  obtain ⟨sameLast, sameTarget⟩ := sameSide_of_turn off imaged onLine inner turns forwards comes
  refine ⟨onLine, sameTarget, Point.square_pos_of_image? imaged, ?_,
    straight_of_turn imaged onLine inner turns forwards comes⟩
  rw [Wall.beside_eq_of_mul_pos wall sameLast]
  exact outside

end Turn

/-- What the walk back keeps: it comes from the source along the line to the last image,
is as long as that line, and is reflected by every wall. -/
theorem walkBack_spec {sequence : List (Bounce ℝ)} {target : Point ℝ} {points : List (Point ℝ)}
    (chained : s.Chained source sequence) (walked : walkBack target sequence = some points) :
    (∃ front before u, source :: points = front ++ [before] ∧ 0 < u ∧
      before.Above (Point.between target (lastImage source sequence) u)) ∧
    Polyline.planarLength (source :: points ++ [target])
      = target.planarDistance (lastImage source sequence) ∧
    Along (ReflectedInPlan s) (sequence.reverse.map Bounce.wall)
      (source :: points ++ [target]) := by
  induction sequence generalizing target points with
  | nil =>
      obtain rfl : [] = points := by simpa [walkBack] using walked
      refine ⟨⟨[], source, 1, rfl, one_pos, ?_⟩, ?_, ?_⟩
      · rw [Point.between_one]
        exact .refl source
      · simp [Polyline.planarLength_cons_cons, lastImage, source.planarDistance_comm target]
      · intro k w before place after isWall
        simp at isWall
  | cons b earlier ih =>
      obtain ⟨extension, chained⟩ := chained
      obtain ⟨-, faces, next, image, bounced⟩ := extension?_eq_some_iff.1 extension
      obtain rfl : b.image = next := congrArg Bounce.image bounced
      obtain ⟨t, r, before, met, inner, earlierWalked, rfl⟩ := walkBack_cons_eq_some_iff.1 walked
      obtain ⟨⟨front, last, u, isLast, forwards, comes⟩, length, along⟩ := ih chained earlierWalked
      have start : 0 < t := Scalar.eps_pos.trans inner.1
      have stop : t < 1 := inner.2.trans (sub_lt_self _ Scalar.eps_pos)
      have onLine := (Crossing.of_eq_point met start stop).1
      have turned : (Point.between target b.image t).planarDistance
          (lastImage source earlier) = (Point.between target b.image t).planarDistance b.image :=
        (Point.planarDistance_image? image onLine).symm
      have top : lastImage source (b :: earlier) = b.image := rfl
      have laid : source :: before ++ [Point.between target b.image t]
          = front ++ [last, Point.between target b.image t] := by
        rw [isLast]
        simp
      refine ⟨⟨source :: before, _, t, rfl, start, by rw [top]; exact .refl _⟩, ?_, ?_⟩
      · have added := Polyline.planarLength_concat (source :: before)
          (Point.between target b.image t) target
        have divided := Point.planarDistance_add_of_above start.le stop.le
          (Point.Above.refl (Point.between target b.image t))
        have joined : source :: (before ++ [Point.between target b.image t]) ++ [target]
            = source :: before ++ [Point.between target b.image t, target] := by simp
        rw [joined, added, length, turned, top, ← divided,
          Point.planarDistance_comm _ target, add_comm]
      · rw [List.reverse_cons, List.map_append, ← List.cons_append, laid]
        rw [laid] at along
        refine along.concat ?_ ?_
        · have counted := congrArg List.length isLast
          rw [List.length_cons, length_walkBack earlierWalked] at counted
          simpa using counted.symm
        · exact reflectedInPlan_of_turn faces image onLine ⟨start, stop⟩ (.refl _) forwards comes

/-- The last image is that in all walls, one after the other. -/
theorem foldlM_image?_eq {sequence : List (Bounce ℝ)} (chained : s.Chained source sequence) :
    (sequence.reverse.map Bounce.wall).foldlM (fun p wall => p.image? wall.p0 wall.p1) source
      = some (lastImage source sequence) := by
  induction sequence with
  | nil => rfl
  | cons b earlier ih =>
      obtain ⟨-, -, next, image, bounced⟩ := extension?_eq_some_iff.1 chained.1
      obtain rfl : b.image = next := congrArg Bounce.image bounced
      have wall : (b :: earlier).reverse.map Bounce.wall
          = earlier.reverse.map Bounce.wall ++ [b.wall] := by simp
      rw [wall, List.foldlM_append, ih chained.2]
      simpa [lastImage] using image

/-- A way by way of walls has a length on the map. -/
theorem planarDistance_pos_of_walkBack {b : Bounce ℝ} {earlier : List (Bounce ℝ)}
    {target : Point ℝ} {points : List (Point ℝ)}
    (walked : walkBack target (b :: earlier) = some points) :
    0 < target.planarDistance b.image := by
  obtain ⟨t, r, before, met, inner, -, -⟩ := walkBack_cons_eq_some_iff.1 walked
  obtain ⟨onLine, aside⟩ := Crossing.of_eq_point met (Scalar.eps_pos.trans inner.1)
    (inner.2.trans (sub_lt_self _ Scalar.eps_pos))
  refine (target.planarDistance_nonneg b.image).lt_of_ne fun none => aside ?_
  -- without a length the crossing is the target itself
  have close := target.abs_x_le_planarDistance b.image
  have close' := target.abs_y_le_planarDistance b.image
  rw [← none, abs_nonpos_iff, sub_eq_zero] at close close'
  have same : (Point.between target b.image t).Above target := by
    simp [Point.Above, Point.between, close, close']
  rw [← same.sideOf_eq, onLine]

end Scene

/-! ## Reflections in space -/

/-- At `place`, on its way from `before` to `after`, a path is reflected by the wall: on
the wall's line and below the roof, with both points on the side that is outside the
building, and straight on when `before` is replaced by its image. -/
structure Reflected (s : Scene ℝ) (wall : Wall ℝ) (before place after : Point ℝ) : Prop where
  onLine : place.sideOf wall.p0 wall.p1 = 0
  belowRoof : ∃ roof, s.roofs[wall.building]? = some roof ∧ place.z < roof
  sameSide : 0 < before.sideOf wall.p0 wall.p1 * after.sideOf wall.p0 wall.p1
  outside : ∃ building, s.buildings[wall.building]? = some building ∧
    building.outline.contains (wall.beside (before.sideOf wall.p0 wall.p1)) = false ∧
    0 < (wall.beside (before.sideOf wall.p0 wall.p1)).sideOf wall.p0 wall.p1
      * before.sideOf wall.p0 wall.p1
  straight : ∃ image u, before.image? wall.p0 wall.p1 = some image ∧ (0 < u ∧ u < 1) ∧
    place = Point.between after image u

/-- Legs of one slope are reflected in space as they are on the map. -/
theorem ReflectedInPlan.lift {s : Scene ℝ} {wall : Wall ℝ} {before place after before' place'
    after' : Point ℝ} {slope roof : ℝ} {building : Building ℝ}
    (inPlan : ReflectedInPlan s wall before' place' after')
    (overBefore : before.Above before') (overPlace : place.Above place')
    (overAfter : after.Above after')
    (rise : place.z - before.z = slope * before.planarDistance place)
    (rise' : after.z - place.z = slope * place.planarDistance after)
    (isRoof : s.roofs[wall.building]? = some roof) (low : place.z < roof)
    (isBuilding : s.buildings[wall.building]? = some building) :
    Reflected s wall before place after := by
  obtain ⟨onLine, sameSide, solid, outside, image', u, imaged, -, ⟨start, stop⟩, straight⟩ := inPlan
  rw [← overBefore.sideOf_eq] at sameSide outside
  rw [← overAfter.sideOf_eq] at sameSide
  rw [← overPlace.sideOf_eq] at onLine
  have aside : before.sideOf wall.p0 wall.p1 ≠ 0 := left_ne_zero_of_mul sameSide.ne'
  obtain ⟨image, imaged, overImage, level⟩ := overBefore.exists_image? imaged
  have onWay : place.Above (Point.between after image u) :=
    overPlace.trans (straight.trans (overAfter.between overImage u).symm)
  refine ⟨onLine, ⟨roof, isRoof, low⟩, sameSide, ⟨building, isBuilding, outside building isBuilding,
    wall.sideOf_beside_mul_pos aside solid⟩, image, u, imaged, ⟨start, stop⟩, ?_⟩
  -- the two legs divide the line to the image, so its slope is theirs
  have near : place.planarDistance after = u * after.planarDistance image := by
    rw [onWay.planarDistance_eq (.refl after), Point.planarDistance_comm,
      Point.planarDistance_between_left _ _ start.le]
  have far : before.planarDistance place = (1 - u) * after.planarDistance image := by
    rw [Point.planarDistance_comm, ← Point.planarDistance_image? imaged onLine,
      onWay.planarDistance_eq (.refl image), Point.planarDistance_between_right _ _ stop.le]
  rw [near] at rise'
  rw [far] at rise
  refine Point.ext onWay.1 onWay.2 ?_
  rw [Point.between, level]
  linear_combination (u - 1) * rise' + u * rise

/-! ## Paths by way of walls -/

/-- A path unfolds into a straight line: it leads over `places` on the walls, is reflected
at each, is as long as the line from the receiver to the image of the source in all walls,
and no leg of it is obstructed. -/
structure Path.Unfolds (s : Scene ℝ) (source receiver : Point ℝ) (walls : List (Nat × Wall ℝ))
    (places : List (Point ℝ)) (path : Path ℝ) : Prop where
  kind : path.kind = .reflected walls.length
  entries : ∀ w ∈ walls, s.walls[w.1]? = some w.2
  onePlaceEach : places.length = walls.length
  events : path.events = .source source
    :: (walls.zip places).map (fun (w, place) => .reflection place w.1 w.2.absorption)
      ++ [.receiver receiver]
  reflected : Along (fun w => Reflected s w.2) walls (source :: places ++ [receiver])
  unfolded : ∃ image, (walls.map Prod.snd).foldlM (fun p wall => p.image? wall.p0 wall.p1) source
      = some image ∧
    Polyline.planarLength (source :: places ++ [receiver]) = receiver.planarDistance image ∧
    path.length = √(receiver.planarDistance image ^ 2 + (receiver.z - source.z) ^ 2)
  length : path.length = Polyline.length (source :: places ++ [receiver])
  direct : path.directLength = source.distance receiver ∧ path.directLength ≤ path.length
  free : ∀ leg ∈ Sequence.adjacent (source :: places ++ [receiver]),
    s.obstructed leg.1 leg.2 = false

namespace Scene

variable {s : Scene ℝ} {source receiver : Point ℝ}

/-- The places of a way over walls lie below the roofs of their walls. -/
theorem below_of_unfoldedWay? {sequence : List (Bounce ℝ)} {way : List (Point ℝ)}
    (unfolded : s.unfoldedWay? source receiver sequence = some way) {k : Nat} {b : Bounce ℝ}
    {place : Point ℝ} (isBounce : sequence.reverse[k]? = some b)
    (isPlace : way[k + 1]? = some place) :
    ∃ roof, s.roofs[b.wall.building]? = some roof ∧ place.z < roof := by
  obtain ⟨points, walked, rfl, low, -⟩ := unfoldedWay?_eq_some_iff.1 unfolded
  have inner : (Polyline.inner (Polyline.graded (source :: points ++ [receiver])))[k]?
      = some place := by
    rw [Polyline.graded_eq, List.cons_append, List.getElem?_cons_succ,
      List.getElem?_append] at isPlace
    split_ifs at isPlace with inRange
    · exact isPlace
    · -- there are as many inner places as bounces
      obtain ⟨bound, -⟩ := List.getElem?_eq_some_iff.1 isBounce
      simp [Polyline.inner, Polyline.length_graded, length_walkBack walked] at inRange bound
      omega
  have under := low (b, place) (List.mem_of_getElem? (i := k)
    (List.getElem?_zip_eq_some.2 ⟨isBounce, inner⟩))
  unfold belowRoof at under
  cases isRoof : s.roofs[b.wall.building]? with
  | none => simp [isRoof] at under
  | some roof =>
      rw [isRoof] at under
      exact ⟨roof, rfl, by simpa using under⟩

/-- A graded way over walls is reflected by each of them. -/
theorem reflected_of_unfoldedWay? {sequence : List (Bounce ℝ)} {way : List (Point ℝ)}
    (chained : s.Chained source sequence)
    (founded : ∀ b : Nat, s.roofs[b]? ≠ none → s.buildings[b]? ≠ none)
    (unfolded : s.unfoldedWay? source receiver sequence = some way) (nonempty : sequence ≠ []) :
    Along (Reflected s) (sequence.reverse.map Bounce.wall) way ∧
      Polyline.planarLength way = receiver.planarDistance (lastImage source sequence) ∧
      Polyline.length way = √(receiver.planarDistance (lastImage source sequence) ^ 2
        + (receiver.z - source.z) ^ 2) := by
  obtain ⟨points, walked, rfl, -⟩ := unfoldedWay?_eq_some_iff.1 unfolded
  obtain ⟨-, length, along⟩ := walkBack_spec chained walked
  have above := Polyline.above_graded (source :: points ++ [receiver])
  have long : 0 < Polyline.planarLength (source :: points ++ [receiver]) := by
    rw [length]
    cases sequence with
    | nil => exact absurd rfl nonempty
    | cons b earlier => exact planarDistance_pos_of_walkBack walked
  refine ⟨?_, ?_, ?_⟩
  · intro k wall before place after isWall isBefore isPlace isAfter
    have onMap : ∀ {i : Nat} {p : Point ℝ},
        (Polyline.graded (source :: points ++ [receiver]))[i]? = some p →
        ∃ p', (source :: points ++ [receiver])[i]? = some p' ∧ p.Above p' := by
      intro i p isPoint
      obtain ⟨inRange, rfl⟩ := List.getElem?_eq_some_iff.1 isPoint
      have same := above.length_eq
      exact ⟨_, List.getElem?_eq_getElem (by omega), List.forall₂_iff_get.1 above |>.2 i _ _⟩
    obtain ⟨before', isBefore', overBefore⟩ := onMap isBefore
    obtain ⟨place', isPlace', overPlace⟩ := onMap isPlace
    obtain ⟨after', isAfter', overAfter⟩ := onMap isAfter
    obtain ⟨b, isBounce, rfl⟩ := Option.map_eq_some_iff.1 (List.getElem?_map ▸ isWall)
    obtain ⟨roof, isRoof, under⟩ := below_of_unfoldedWay? unfolded isBounce isPlace
    obtain ⟨building, isBuilding⟩ := Option.ne_none_iff_exists'.1
      (founded _ (by rw [isRoof]; exact Option.some_ne_none roof))
    exact (along k b.wall before' place' after' isWall isBefore' isPlace' isAfter').lift
      overBefore overPlace overAfter
      (Polyline.leg_of_mem_graded long (Sequence.mem_adjacent_of_getElem? isBefore isPlace))
      (Polyline.leg_of_mem_graded long (Sequence.mem_adjacent_of_getElem? isPlace isAfter))
      isRoof under isBuilding
  · rw [Polyline.planarLength_congr above, length]
  · rw [Polyline.length_graded_eq long, length]

end Scene

/-- Every path by way of walls is the mirror image of a straight line in as many walls of
the scene as its order says. -/
theorem Draft.reflectedPaths_unfold (d : Draft ℝ) (source receiver : Point ℝ)
    (options : PathOptions ℝ) {path : Path ℝ}
    (isPath : path ∈ d.finish.reflectedPaths source receiver options) :
    ∃ walls places, (1 ≤ walls.length ∧ walls.length ≤ options.maxOrder) ∧
      path.Unfolds d.finish source receiver walls places := by
  obtain ⟨longer, straight, -⟩ := Scene.le_length_of_mem_reflectedPaths isPath
  obtain ⟨walls, sequence, order, candidates, extended, made⟩ :=
    Scene.exists_of_mem_reflectedPaths isPath
  obtain ⟨way, unfolded, rfl⟩ := Option.map_eq_some_iff.1 made
  have chained := Scene.chained_of_extended? extended trivial
  have named : sequence.reverse.map (fun b => (b.number, b.wall)) = walls := by
    rw [Scene.walls_of_extended? extended, List.reverse_nil, List.map_nil, List.nil_append]
  have solids : sequence.reverse.map Bounce.wall = walls.map Prod.snd := by
    rw [← named, List.map_map]
    rfl
  have counted : sequence.length = walls.length := by
    rw [← named, List.length_map, List.length_reverse]
  have nonempty : sequence ≠ [] := fun empty => by
    rw [empty, List.length_nil] at counted
    omega
  have founded : ∀ b : Nat, d.finish.roofs[b]? ≠ none → d.finish.buildings[b]? ≠ none := by
    intro b roofed bare
    refine roofed ?_
    simp only [finish] at bare ⊢
    rw [Array.getElem?_map, bare, Option.map_none]
  obtain ⟨along, planar, length⟩ :=
    Scene.reflected_of_unfoldedWay? chained founded unfolded nonempty
  obtain ⟨points, walked, rfl, -, free⟩ := Scene.unfoldedWay?_eq_some_iff.1 unfolded
  rw [Polyline.graded_eq] at along planar free
  rw [solids] at along
  refine ⟨walls, Polyline.inner (Polyline.graded (source :: points ++ [receiver])), order, ?_⟩
  constructor
  · exact congrArg PathKind.reflected counted
  · exact fun w isWall => (Scene.mem_reflectors.1 (candidates w isWall)).2.1
  · simp [Polyline.inner, Polyline.length_graded, Scene.length_walkBack walked, counted]
  · rw [← named, List.zip_map_left, List.map_map]
    rfl
  · intro k w before place after isWall
    exact along k w.2 before place after (by rw [List.getElem?_map, isWall]; rfl)
  · refine ⟨Scene.lastImage source sequence, ?_, planar, length⟩
    rw [← solids, Scene.foldlM_image?_eq chained]
  · rw [← Polyline.graded_eq]
  · exact ⟨rfl, longer⟩
  · exact free

/-! ## A wall that reflects -/

/-- The ways to and from the middle of the south side have no part in the block. -/
theorem block_insideParts_south {p q : Point ℝ}
    (leg : p = ⟨-10, 0, 1⟩ ∧ q = ⟨0, 10, 1⟩ ∨ p = ⟨0, 10, 1⟩ ∧ q = ⟨10, 0, 1⟩) :
    blockOutline.insideParts p q = [] := by
  have met : ∀ e ∈ blockOutline.edges, ∀ t ∈ (Crossing.of p q e.1 e.2).positions,
      t = 0 ∨ t = 1 := by
    rcases leg with ⟨rfl, rfl⟩ | ⟨rfl, rfl⟩ <;>
    · simp [Polygon.edges, Polygon.rings, blockOutline, blockRing, Sequence.cyclic, Crossing.of,
        Crossing.ofParallel, Displacement.cross, Displacement.dot, Scalar.eps_eq, Scalar.clamp]
      norm_num [Crossing.positions]
  have middle : (Point.between p q 0.5).y = 5 := by
    rcases leg with ⟨rfl, rfl⟩ | ⟨rfl, rfl⟩ <;> norm_num [Point.between]
  have outside : ∀ piece ∈ Sequence.adjacent
      (tidyPositions ((0 : ℝ) :: blockOutline.boundaryCrossings p q ++ [1])),
      ¬blockOutline.contains (Point.between p q (0.5 * (piece.1 + piece.2))) = true := by
    intro piece isPiece holds
    have ends : ∀ t ∈ tidyPositions ((0 : ℝ) :: blockOutline.boundaryCrossings p q ++ [1]),
        t = 0 ∨ t = 1 := by
      intro t kept
      have entry := mem_of_mem_tidyPositions kept
      simp only [List.cons_append, List.mem_cons, List.mem_append, List.not_mem_nil,
        or_false] at entry
      rcases entry with start | crossing | stop
      · exact .inl start
      · obtain ⟨e, edge, position⟩ := Polygon.exists_of_mem_boundaryCrossings crossing
        exact met e edge t position
      · exact .inr stop
    have long := Sequence.pairwise_of_mem_adjacent (pairwise_tidyPositions _) isPiece
    obtain ⟨first, second⟩ := Sequence.mem_of_mem_adjacent isPiece
    have positive := Scalar.eps_pos
    have start : piece.1 = 0 := (ends _ first).resolve_right fun stop => by
      rcases ends _ second with start | stop' <;> linarith
    have stop : piece.2 = 1 := (ends _ second).resolve_left fun start' => by linarith
    have south := le_of_block_contains holds
    rw [start, stop, zero_add, mul_one, middle] at south
    norm_num at south
  rw [Polygon.insideParts, List.filter_eq_nil_iff.2 outside]
  rfl

/-- The wall of the block that faces the source. -/
noncomputable def southWall : Wall ℝ := ⟨0, ⟨-10.0, 10.0, 0⟩, ⟨10.0, 10.0, 0⟩, 0.1⟩

theorem block_southWall : blockDraft.finish.walls[0]? = some southWall := by
  simp [blockDraft, block, Draft.finish, Building.walls, Polygon.edges, Polygon.rings,
    blockOutline, blockRing, Sequence.cyclic, southWall, Draft.empty]

theorem block_faces : blockDraft.finish.faces southWall ⟨-10, 0, 1⟩ = true := by
  have far : ¬Scalar.abs (Point.sideOf ⟨-10, 0, 1⟩ southWall.p0 southWall.p1) < Scalar.eps := by
    norm_num [Point.sideOf_eq, southWall, Scalar.eps_eq]
  have long : Scalar.hypot (southWall.p1.x - southWall.p0.x) (southWall.p1.y - southWall.p0.y)
      = 20 := by
    rw [Scalar.hypot_eq, southWall, Real.sqrt_eq_iff_mul_self_eq_of_pos] <;> norm_num
  have side : Scalar.sign (Point.sideOf ⟨-10, 0, 1⟩ southWall.p0 southWall.p1) = -1 := by
    norm_num [Point.sideOf_eq, southWall, Scalar.sign]
  unfold Scene.faces
  dsimp only
  rw [if_neg far, long, side]
  simp only [Draft.finish, blockDraft, southWall, List.getElem?_toArray, List.getElem?_cons_zero,
    Bool.not_eq_true']
  rw [← Bool.not_eq_true]
  intro holds
  have north := le_of_block_contains holds
  norm_num [Point.between, sideStep] at north

theorem block_free {p q : Point ℝ}
    (leg : p = ⟨-10, 0, 1⟩ ∧ q = ⟨0, 10, 1⟩ ∨ p = ⟨0, 10, 1⟩ ∧ q = ⟨10, 0, 1⟩) :
    blockDraft.finish.obstructed p q = false := by
  rw [← Bool.not_eq_true, Scene.obstructed_iff]
  rintro (⟨b, -, blocked⟩ | hidden)
  · obtain ⟨building, roof, isBuilding, -, part, inside, -⟩ := Scene.exists_of_blocks blocked
    have member : building ∈ blockDraft.buildings := Array.mem_of_getElem? isBuilding
    obtain rfl : building = block := by simpa [blockDraft] using member
    rw [block_outline, block_insideParts_south leg] at inside
    simp at inside
  · rw [Scene.hides_of_no_relief _ _ _ rfl] at hidden
    exact Bool.noConfusion hidden

/-- The way over the south wall. -/
theorem block_unfoldedWay : blockDraft.finish.unfoldedWay? ⟨-10, 0, 1⟩ ⟨10, 0, 1⟩
    [⟨0, southWall, ⟨-10, 20, 1⟩⟩] = some [⟨-10, 0, 1⟩, ⟨0, 10, 1⟩, ⟨10, 0, 1⟩] := by
  have met : Crossing.of (⟨10, 0, 1⟩ : Point ℝ) ⟨-10, 20, 1⟩ southWall.p0 southWall.p1
      = .point (1 / 2) (1 / 2) := by
    simp [Crossing.of, southWall, Displacement.cross, Displacement.dot, Scalar.eps_eq, Scalar.clamp,
      Scalar.within]
    norm_num [abs_of_neg]
  have middle : Point.between (⟨10, 0, 1⟩ : Point ℝ) ⟨-10, 20, 1⟩ (1 / 2) = ⟨0, 10, 1⟩ := by
    norm_num [Point.between]
  have walked : walkBack ⟨10, 0, 1⟩ [⟨0, southWall, ⟨-10, 20, 1⟩⟩]
      = some [(⟨0, 10, 1⟩ : Point ℝ)] :=
    Scene.walkBack_cons_eq_some_iff.2
      ⟨_, _, [], met, by norm_num [Scalar.eps_eq], rfl, by rw [middle]; rfl⟩
  have level : Polyline.graded [(⟨-10, 0, 1⟩ : Point ℝ), ⟨0, 10, 1⟩, ⟨10, 0, 1⟩]
      = [⟨-10, 0, 1⟩, ⟨0, 10, 1⟩, ⟨10, 0, 1⟩] := by
    simp [Polyline.graded, Polyline.gradeAfter, Point.raisedTo]
  rw [Scene.unfoldedWay?_eq_some_iff]
  refine ⟨_, walked, level.symm, ?_, ?_⟩
  · norm_num [Polyline.inner, Scene.belowRoof, southWall, blockDraft, block, Draft.finish,
      Building.roof]
  · simp only [Sequence.adjacent, List.tail_cons, List.zip_cons_cons, List.zip_nil_right,
      List.forall_mem_cons]
    exact ⟨block_free (.inl ⟨rfl, rfl⟩), block_free (.inr ⟨rfl, rfl⟩), by simp⟩

theorem block_image : Point.image? (⟨-10, 0, 1⟩ : Point ℝ) southWall.p0 southWall.p1
    = some ⟨-10, 20, 1⟩ := by
  rw [Point.image?_eq_some_iff]
  norm_num [southWall, Displacement.dot, Scalar.eps_eq, Point.foot]

/-- The south wall throws the sound back. -/
theorem block_reflects :
    ∃ path ∈ blockDraft.finish.reflectedPaths ⟨-10, 0, 1⟩ ⟨10, 0, 1⟩ ⟨false, true, 1, none, 50⟩,
      ∃ walls places, (1 ≤ walls.length ∧ walls.length ≤ 1) ∧
        path.Unfolds blockDraft.finish ⟨-10, 0, 1⟩ ⟨10, 0, 1⟩ walls places := by
  have near : blockDraft.finish.wallWithin ⟨-10, 0, 1⟩ 50 0 = true := by
    simp only [Scene.wallWithin, block_southWall, decide_eq_true_eq]
    have short : ¬(20 * 20 : ℝ) < Scalar.eps * Scalar.eps := by norm_num [Scalar.eps_eq]
    norm_num [southWall, Point.distanceToSegment, Displacement.dot, short, Scalar.clamp,
      Point.planarDistance_eq, Point.between, Real.sqrt_le_iff]
  have candidate : (0, southWall) ∈ blockDraft.finish.reflectors ⟨-10, 0, 1⟩ ⟨10, 0, 1⟩ 50 := by
    refine Scene.mem_reflectors.2 ⟨.inl ?_, block_southWall, by norm_num [southWall]⟩
    rw [Draft.finish_wallsNear, Scene.plainWallsNear, List.mem_filter, List.mem_range]
    exact ⟨(Array.getElem?_eq_some_iff.1 block_southWall).1, near⟩
  have extended : blockDraft.finish.extended? ⟨-10, 0, 1⟩ [] [(0, southWall)]
      = some [⟨0, southWall, ⟨-10, 20, 1⟩⟩] :=
    Option.bind_eq_some_iff.2 ⟨_, Scene.extension?_eq_some_iff.2
      ⟨by simp, block_faces, _, block_image, rfl⟩, rfl⟩
  obtain ⟨path, made⟩ : ∃ path, blockDraft.finish.reflectedPath? ⟨-10, 0, 1⟩ ⟨10, 0, 1⟩ none
      [⟨0, southWall, ⟨-10, 20, 1⟩⟩] = some path :=
    ⟨_, Option.map_eq_some_iff.2 ⟨_, block_unfoldedWay, rfl⟩⟩
  have isPath : path ∈ blockDraft.finish.reflectedPaths ⟨-10, 0, 1⟩ ⟨10, 0, 1⟩
      ⟨false, true, 1, none, 50⟩ := by
    rw [Scene.reflectedPaths_eq]
    refine List.mem_flatMap.2 ⟨0, by simp, ?_⟩
    refine List.mem_filterMap.2 ⟨_, List.mem_filterMap.2 ⟨_, ?_, extended⟩, made⟩
    exact Sequence.mem_ofLength.2 ⟨rfl, by simpa using candidate⟩
  exact ⟨path, isPath, blockDraft.reflectedPaths_unfold _ _ _ isPath⟩

end RoadNoise
