/-
# RoadNoise.Proofs.Compass -- the sixteen directions

A bearing is counted in degrees clockwise from north, so a place lies `r sin β` to the east
and `r cos β` to the north of the place it is seen from (`Bears`).  The sector of a
direction is found the other way: from an angle counted counter-clockwise from east, which
jumps in the west, turned half a sector on, brought back into one turn and cut to a whole
number, with the sector of north moved from the first place to the last.

What comes out of that is free of jumps.  A sector holds the bearings less than half its
width from its centre, and the one exactly half its width before it, counted modulo a whole
turn (`InSector`).  The sectors tell all bearings apart (`inSector_unique`), so a sector is
known by its bearings alone, and whole sectors can be added to both (`InSector.turn`).
-/
import RoadNoise.Proofs.Exact
import RoadNoise.Loss.Wind

set_option autoImplicit false

namespace RoadNoise

/-! ## Bearings -/

/-- From the first place the second is seen at a bearing, in degrees clockwise from north. -/
def Bears (p q : Point ℝ) (bearing : ℝ) : Prop :=
  ∃ r, 0 < r ∧ q.x - p.x = r * Real.sin (bearing * Real.pi / 180) ∧
    q.y - p.y = r * Real.cos (bearing * Real.pi / 180)

variable {p q : Point ℝ} {bearing : ℝ}

theorem exists_bears (apart : p.x ≠ q.x ∨ p.y ≠ q.y) : ∃ bearing, Bears p q bearing := by
  have other : (⟨q.x - p.x, q.y - p.y⟩ : ℂ) ≠ 0 := by
    rw [Ne, Complex.ext_iff, not_and_or]
    exact apart.imp (fun ne => (sub_ne_zero.2 ne.symm)) fun ne => (sub_ne_zero.2 ne.symm)
  set z : ℂ := ⟨q.x - p.x, q.y - p.y⟩
  have length : ‖z‖ ≠ 0 := norm_ne_zero_iff.2 other
  have angle : (90 - z.arg * 180 / Real.pi) * Real.pi / 180 = Real.pi / 2 - z.arg := by
    field_simp
    ring
  refine ⟨90 - z.arg * 180 / Real.pi, ‖z‖, norm_pos_iff.2 other, ?_, ?_⟩
  · rw [angle, Real.sin_pi_div_two_sub, Complex.cos_arg other, mul_div_cancel₀ _ length]
  · rw [angle, Real.cos_pi_div_two_sub, Complex.sin_arg, mul_div_cancel₀ _ length]

/-- The way back has the opposite bearing. -/
theorem Bears.back (bears : Bears p q bearing) : Bears q p (bearing + 180) := by
  obtain ⟨r, positive, east, north⟩ := bears
  have opposite : (bearing + 180) * Real.pi / 180 = bearing * Real.pi / 180 + Real.pi := by
    ring
  refine ⟨r, positive, ?_, ?_⟩
  · rw [opposite, Real.sin_add_pi]
    linarith
  · rw [opposite, Real.cos_add_pi]
    linarith

/-! ## Sectors -/

/-- A bearing lies in a sector, modulo whole turns: the start of the sector belongs to it and
its end to the next one. -/
def InSector (bearing : ℝ) (s : Fin 16) : Prop :=
  ∃ turns : ℤ, ((s : ℝ) + 1) * 22.5 - 11.25 ≤ bearing - 360 * turns ∧
    bearing - 360 * turns < ((s : ℝ) + 1) * 22.5 + 11.25

theorem inSector_unique {s s' : Fin 16} (first : InSector bearing s)
    (second : InSector bearing s') : s = s' := by
  obtain ⟨n, low, high⟩ := first
  obtain ⟨n', low', high'⟩ := second
  have below : (s : ℝ) + 16 * n < s' + 16 * n' + 1 := by linarith
  have above : (s' : ℝ) + 16 * n' < s + 16 * n + 1 := by linarith
  have below : ((s : ℕ) : ℤ) + 16 * n < (s' : ℕ) + 16 * n' + 1 := by exact_mod_cast below
  have above : ((s' : ℕ) : ℤ) + 16 * n' < (s : ℕ) + 16 * n + 1 := by exact_mod_cast above
  omega

/-- Whole sectors further on, past north too. -/
theorem InSector.turn {s : Fin 16} (inSector : InSector bearing s) (k : Fin 16) :
    InSector (bearing + 22.5 * (k : ℝ)) (s + k) := by
  obtain ⟨n, low, high⟩ := inSector
  obtain ⟨more, value⟩ : ∃ more : ℕ, ((s + k : Fin 16) : ℕ) + 16 * more = (s : ℕ) + k := by
    refine ⟨((s : ℕ) + k) / 16, ?_⟩
    rw [Fin.val_add]
    omega
  have value : (((s + k : Fin 16) : ℕ) : ℝ) + 16 * more = s + k := by exact_mod_cast value
  refine ⟨n + more, ?_, ?_⟩
  · push_cast
    linarith
  · push_cast
    linarith

/-! ## The sector of a direction -/

/-- The direction from a place to another, in sectors clockwise from the start of the one of
north. -/
def turned {α : Type} [Scalar α] (p q : Point α) : α :=
  let width : α := Scalar.tau / 16
  let angle := Scalar.pi / 2 - Scalar.atan2 (q.y - p.y) (q.x - p.x) + width / 2
  (if angle < 0 then angle + Scalar.tau else angle) / width

theorem turned_eq (p q : Point ℝ) : turned p q =
    let angle := Real.pi / 2 - Complex.arg ⟨q.x - p.x, q.y - p.y⟩ + 2 * Real.pi / 16 / 2
    (if angle < 0 then angle + 2 * Real.pi else angle) / (2 * Real.pi / 16) := rfl

theorem sectorOf_eq (p q : Point ℝ) : sectorOf p q = match ⌊turned p q⌋₊ with
    | 0 => 15
    | k + 1 => if h : k < 16 then ⟨k, h⟩ else 15 := rfl

/-- A direction is less than one turn from the start of north. -/
theorem turned_mem (p q : Point ℝ) : 0 ≤ turned p q ∧ turned p q < 16 := by
  have pi := Real.pi_pos
  have low := Complex.neg_pi_lt_arg ⟨q.x - p.x, q.y - p.y⟩
  have high := Complex.arg_le_pi ⟨q.x - p.x, q.y - p.y⟩
  rw [turned_eq]
  dsimp only
  rw [div_lt_iff₀ (by positivity)]
  split_ifs with behind
  · exact ⟨div_nonneg (by linarith) (by positivity), by linarith⟩
  · exact ⟨div_nonneg (by linarith) (by positivity), by linarith⟩

/-- Bringing a direction back into one turn adds whole turns. -/
theorem exists_turned_eq (p q : Point ℝ) : ∃ turns : ℤ, turned p q * (2 * Real.pi / 16)
    = Real.pi / 2 - Complex.arg ⟨q.x - p.x, q.y - p.y⟩ + 2 * Real.pi / 16 / 2
      + turns * (2 * Real.pi) := by
  have width : 2 * Real.pi / 16 ≠ 0 := by positivity
  rw [turned_eq]
  dsimp only
  split_ifs with behind
  · exact ⟨1, by rw [div_mul_cancel₀ _ width, Int.cast_one, one_mul]⟩
  · exact ⟨0, by rw [div_mul_cancel₀ _ width, Int.cast_zero, zero_mul, add_zero]⟩

/-- It is the bearing, half a sector on, up to whole turns. -/
theorem Bears.exists_turned (bears : Bears p q bearing) :
    ∃ turns : ℤ, bearing + 11.25 = 22.5 * turned p q + 360 * turns := by
  obtain ⟨r, positive, east, north⟩ := bears
  obtain ⟨added, place⟩ := exists_turned_eq p q
  -- the same direction, counter-clockwise from east
  set θ := Real.pi / 2 - bearing * Real.pi / 180 with angle
  have direction : (⟨q.x - p.x, q.y - p.y⟩ : ℂ)
      = r * (Complex.cos θ + Complex.sin θ * Complex.I) := by
    rw [← Complex.ofReal_cos, ← Complex.ofReal_sin, angle, Real.cos_pi_div_two_sub,
      Real.sin_pi_div_two_sub]
    apply Complex.ext
    · simp [-Complex.ofReal_sin, -Complex.ofReal_cos, east]
    · simp [-Complex.ofReal_sin, -Complex.ofReal_cos, north]
  have arg := Complex.arg_mul_cos_add_sin_mul_I_sub positive θ
  rw [← direction] at arg
  generalize ⌊(Real.pi - θ) / (2 * Real.pi)⌋ = turns at arg
  refine ⟨turns - added, mul_right_cancel₀ Real.pi_pos.ne' ?_⟩
  push_cast
  linear_combination 180 * arg - 180 * place - 180 * angle

theorem inSector_sectorOf (bears : Bears p q bearing) : InSector bearing (sectorOf p q) := by
  obtain ⟨turns, place⟩ := bears.exists_turned
  obtain ⟨start, stop⟩ := turned_mem p q
  have low := Nat.floor_le start
  have high := Nat.lt_floor_add_one (turned p q)
  have inRange : ⌊turned p q⌋₊ < 16 := (Nat.floor_lt start).2 stop
  rw [sectorOf_eq]
  split
  · rename_i north
    rw [north, Nat.cast_zero] at low high
    have last : (((15 : Fin 16) : ℕ) : ℝ) = 15 := by norm_num
    rw [InSector, last]
    refine ⟨turns - 1, ?_, ?_⟩
    · push_cast
      linarith
    · push_cast
      linarith
  · rename_i k sector
    rw [sector] at low high inRange
    rw [dif_pos (Nat.lt_of_succ_lt inRange)]
    push_cast at low high
    exact ⟨turns, by linarith, by linarith⟩

/-- A sector is known by its bearings. -/
theorem sectorOf_eq_iff (bears : Bears p q bearing) {s : Fin 16} :
    sectorOf p q = s ↔ InSector bearing s :=
  ⟨fun same => same ▸ inSector_sectorOf bears, inSector_unique (inSector_sectorOf bears)⟩

/-- Two places apart on the map see each other in opposite sectors.  The sector of a direction
is the one whose centre is less than half a sector away, or half a sector further on, and a
direction one sector clockwise lies in the next one, with the first after the last. -/
theorem sectorOf_bearing {source receiver : Point ℝ}
    (apart : source.x ≠ receiver.x ∨ source.y ≠ receiver.y) :
    (∃ bearing, Bears source receiver bearing) ∧
    (∀ bearing, Bears source receiver bearing →
      (∀ s : Fin 16, sectorOf source receiver = s ↔
        ∃ turns : ℤ, ((s : ℝ) + 1) * 22.5 - 11.25 ≤ bearing - 360 * turns ∧
          bearing - 360 * turns < ((s : ℝ) + 1) * 22.5 + 11.25) ∧
      ∀ source' receiver' : Point ℝ, Bears source' receiver' (bearing + 22.5) →
        sectorOf source' receiver' = sectorOf source receiver + 1) ∧
    sectorOf receiver source = sectorOf source receiver + 8 := by
  obtain ⟨bearing, bears⟩ := exists_bears apart
  have shift {bearing bearing' : ℝ} {p q p' q' : Point ℝ} (bears : Bears p q bearing)
      (bears' : Bears p' q' bearing') (k : Fin 16) (further : bearing' = bearing + 22.5 * (k : ℝ)) :
      sectorOf p' q' = sectorOf p q + k :=
    (sectorOf_eq_iff bears').2 (further ▸ (inSector_sectorOf bears).turn k)
  refine ⟨⟨bearing, bears⟩, fun bearing bears => ⟨fun s => sectorOf_eq_iff bears, ?_⟩, ?_⟩
  · intro source' receiver' bears'
    exact shift bears bears' 1 (by norm_num)
  · exact shift bears bears.back 8 (by norm_num)

/-- North is the last sector: the way back from there is in the eighth, and a sector clockwise
comes the first. -/
theorem northward_sectors : ((0 : ℝ) ≠ 0 ∨ (0 : ℝ) ≠ 10) ∧
    sectorOf (⟨0, 0, 1⟩ : Point ℝ) ⟨0, 10, 4⟩ = 15 ∧
    sectorOf (⟨0, 10, 4⟩ : Point ℝ) ⟨0, 0, 1⟩ = 7 ∧
    ∀ q : Point ℝ, Bears ⟨0, 0, 1⟩ q 22.5 → sectorOf ⟨0, 0, 1⟩ q = 0 := by
  have apart : (⟨0, 0, 1⟩ : Point ℝ).x ≠ (⟨0, 10, 4⟩ : Point ℝ).x ∨
      (⟨0, 0, 1⟩ : Point ℝ).y ≠ (⟨0, 10, 4⟩ : Point ℝ).y := .inr (by norm_num)
  have bears : Bears (⟨0, 0, 1⟩ : Point ℝ) ⟨0, 10, 4⟩ 0 := ⟨10, by norm_num, by simp, by simp⟩
  obtain ⟨-, sectors, back⟩ := sectorOf_bearing apart
  obtain ⟨sector, next⟩ := sectors 0 bears
  have north : sectorOf (⟨0, 0, 1⟩ : Point ℝ) ⟨0, 10, 4⟩ = 15 :=
    (sector 15).2 ⟨-1, by norm_num, by norm_num⟩
  refine ⟨apart, north, by rw [back, north]; rfl, fun q clockwise => ?_⟩
  rw [next _ q (by rwa [zero_add]), north]
  rfl

end RoadNoise
