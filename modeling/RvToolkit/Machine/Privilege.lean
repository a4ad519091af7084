import RvToolkit.Text.Basic

namespace RvToolkit

/-- Privilege modes of a hart. -/
inductive Privilege where
  | user
  | supervisor
  | hypervisor
  | machine
deriving DecidableEq, Repr

namespace Privilege

def level : Privilege → Nat
  | .user => 0
  | .supervisor => 1
  | .hypervisor => 2
  | .machine => 3

def ofName? (name : Text) : Option Privilege :=
  [("USER".toList, Privilege.user), ("SUPER".toList, .supervisor), ("HYPER".toList, .hypervisor),
    ("MACHINE".toList, .machine)].lookup name

end Privilege

end RvToolkit
