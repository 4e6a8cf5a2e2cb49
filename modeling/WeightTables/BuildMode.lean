/-! The two ways in which a build declares its tables. -/

namespace WeightTables

inductive BuildMode where
  /-- Tables hold their values. -/
  | simulation
  /-- Tables are zeroed, and a later tool fills them in. -/
  | synthesis
  deriving DecidableEq

namespace BuildMode

def populated (mode : BuildMode) : Bool := mode == simulation

def name : BuildMode → String
  | simulation => "simulation"
  | synthesis => "synthesis"

def dump : BuildMode → String
  | simulation => "Simulation"
  | synthesis => "Synthesis"

end BuildMode

end WeightTables
