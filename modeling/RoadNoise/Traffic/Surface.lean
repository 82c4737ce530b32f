/-
# RoadNoise.Traffic.Surface -- what the road is made of

A surface changes the noise of a category by a value per octave and by a factor of
the logarithm of the relative speed.  Surfaces are known by name, in a catalogue
that keeps its names in order.
-/
import RoadNoise.Traffic.Vehicle

set_option autoImplicit false

namespace RoadNoise

structure RoadSurface (α : Type) where
  /-- Decibels per octave, for the categories that have them. -/
  alpha : List (VehicleCategory × Octaves α)
  /-- Decibels per tenfold speed, for the categories that have them. -/
  beta : List (VehicleCategory × α)
  /-- The speeds that the values were fitted on. -/
  speeds : Option (α × α)

/-- Named surfaces, each name once and in the order of their characters. -/
structure SurfaceCatalogue (α : Type) where
  entries : List (String × RoadSurface α)

variable {α : Type} [Scalar α]

namespace RoadSurface

/-- A surface that changes nothing. -/
def plain : RoadSurface α := ⟨[], [], none⟩

def octaveGain (s : RoadSurface α) (category : VehicleCategory) (octave : Fin 8) : α :=
  match s.alpha.lookup category with
  | some values => values.get octave
  | none => 0

def speedGain (s : RoadSurface α) (category : VehicleCategory) : α :=
  (s.beta.lookup category).getD 0

/-- The surface's values were fitted on this speed. -/
def covers (s : RoadSurface α) (speed : α) : Bool :=
  match s.speeds with
  | some (lo, hi) => decide (lo ≤ speed) && decide (speed ≤ hi)
  | none => true

/-- A surface with one table for light and one for heavier vehicles. -/
def ofTables (light heavy : Octaves α) (beta : α × α × α) (speeds : α × α) : RoadSurface α :=
  { alpha := [(.light, light), (.medium, heavy), (.heavy, heavy)]
    beta := [(.light, beta.1), (.medium, beta.2.1), (.heavy, beta.2.2)]
    speeds := some speeds }

end RoadSurface

namespace SurfaceCatalogue

/-- The name of the surface that changes nothing. -/
def referenceName : String := "REF"

/-- Puts an entry into its place, instead of one of the same name. -/
def put (name : String) (surface : RoadSurface α) :
    List (String × RoadSurface α) → List (String × RoadSurface α)
  | [] => [(name, surface)]
  | (n, s) :: rest =>
      if n = name then (name, surface) :: rest
      else if name < n then (name, surface) :: (n, s) :: rest
      else (n, s) :: put name surface rest

def insert (c : SurfaceCatalogue α) (name : String) (surface : RoadSurface α) :
    SurfaceCatalogue α :=
  ⟨put name surface c.entries⟩

def get (c : SurfaceCatalogue α) (name : String) : Outcome α (RoadSurface α) :=
  match c.entries.lookup name with
  | some surface => .ok surface
  | none => .error (.unknownSurface name)

def names (c : SurfaceCatalogue α) : List String := c.entries.map Prod.fst

/-- The surface that changes nothing, and no other. -/
def reference : SurfaceCatalogue α := ⟨[(referenceName, .plain)]⟩

/-- The catalogue with the given entries, each name with the last of its surfaces,
and with the reference surface if it is not among them. -/
def ofEntries (entries : List (String × RoadSurface α)) : SurfaceCatalogue α :=
  let given : SurfaceCatalogue α :=
    entries.foldl (fun c (name, surface) => c.insert name surface) ⟨[]⟩
  if given.names.contains referenceName then given else given.insert referenceName .plain

/-- The reference surface and five Dutch ones. -/
def standard : SurfaceCatalogue α :=
  reference
    |>.insert "NL01" (.ofTables
      #v[0.5, 3.3, 2.4, 3.2, -1.3, -3.5, -2.6, 0.5]
      #v[0.9, 1.4, 1.8, -0.4, -5.2, -4.6, -3, -1.4]
      (-6.5, 0.2, 0.2) (50, 130))
    |>.insert "NL02" (.ofTables
      #v[0.4, 2.4, 0.2, -3.1, -4.2, -6.3, -4.8, -2]
      #v[0.4, 0.2, -0.7, -5.4, -6.3, -6.3, -4.7, -3.7]
      (-3, 4.7, 4.7) (50, 130))
    |>.insert "NL03" (.ofTables
      #v[-1, 1.7, -1.5, -5.3, -6.3, -8.5, -5.3, -2.4]
      #v[1, 0.1, -1.8, -5.9, -6.1, -6.7, -4.8, -3.8]
      (-0.1, -0.8, -0.8) (80, 130))
    |>.insert "NL04" (.ofTables
      #v[1.1, -1, 0.2, 1.3, -1.9, -2.8, -2.1, -1.4]
      #v[0, 0, 0, 0, 0, 0, 0, 0]
      (-1, 0, 0) (40, 80))
    |>.insert "NL05" (.ofTables
      #v[0.3, 0, 0, -0.1, -0.7, -1.3, -0.8, -0.8]
      #v[0, 0, 0, 0, 0, 0, 0, 0]
      (-1, 0, 0) (40, 80))

end SurfaceCatalogue

end RoadNoise
