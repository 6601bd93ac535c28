import HingeLoss.Settings.Fault
import HingeLoss.Solver.Fault

/-! Every fault of the library under one type, with its code, its message and its advice. -/

namespace HingeLoss

inductive Fault where
  | atom (fault : AtomFault Single)
  | store (fault : StoreFault Single)
  | page (fault : PageFault)
  | solver (fault : SolverFault Single)
  | settings (fault : SettingsFault)
deriving DecidableEq

namespace Fault

def code : Fault → String
  | atom fault => fault.code
  | store fault => fault.code
  | page fault => fault.code
  | solver fault => fault.code
  | settings fault => fault.code

def message : Fault → String
  | atom fault => fault.message
  | store fault => fault.message
  | page fault => fault.message
  | solver fault => fault.message
  | settings fault => fault.message

def help : Fault → String
  | atom fault => fault.help
  | store fault => fault.help
  | page fault => fault.help
  | solver fault => fault.help
  | settings fault => fault.help

/-- The text of the fault beneath this one. -/
def source : Fault → Option String
  | atom _ => none
  | store fault => fault.source
  | page fault => fault.source
  | solver fault => fault.source
  | settings fault => fault.source

instance : Coe (AtomFault Single) Fault := ⟨atom⟩
instance : Coe (StoreFault Single) Fault := ⟨store⟩
instance : Coe PageFault Fault := ⟨page⟩
instance : Coe (SolverFault Single) Fault := ⟨solver⟩
instance : Coe SettingsFault Fault := ⟨settings⟩

end Fault

end HingeLoss
