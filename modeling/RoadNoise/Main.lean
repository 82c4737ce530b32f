/-
# RoadNoise.Main -- the worked example on the command line
-/
import RoadNoise.Canyon

set_option autoImplicit false

open RoadNoise in
def main : IO UInt32 := do
  IO.println Canyon.heading
  match Canyon.report Canyon.settings with
  | .ok lines =>
      lines.forM IO.println
      return 0
  | .error fault =>
      IO.eprintln ("Error: " ++ fault.message Decimal.text)
      return 1
