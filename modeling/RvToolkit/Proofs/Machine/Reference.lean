import RvToolkit.Assembly.Encoding

namespace RvToolkit.Reference

structure State where
  pc : BitVec 32
  regs : Fin 32 → BitVec 32

namespace State

/-- Register zero reads as zero. -/
def read (s : State) (r : Fin 32) : BitVec 32 := if r = 0 then 0 else s.regs r

def write (s : State) (r : Fin 32) (v : BitVec 32) : State :=
  { s with regs := fun i => if i = r then v else s.regs i }

def goto (s : State) (pc : BitVec 32) : State := { s with pc := pc }

end State

inductive Alu where
  | add
  | sub
  | xor
  | or
  | and
  | sll
  | srl
  | sra
  | slt
  | sltu
deriving DecidableEq, Repr

/-- Shifts take the five low bits of their amount. -/
def Alu.eval : Alu → BitVec 32 → BitVec 32 → BitVec 32
  | .add, a, b => a + b
  | .sub, a, b => a - b
  | .xor, a, b => a ^^^ b
  | .or, a, b => a ||| b
  | .and, a, b => a &&& b
  | .sll, a, b => a <<< (b.toNat % 32)
  | .srl, a, b => a >>> (b.toNat % 32)
  | .sra, a, b => a.sshiftRight (b.toNat % 32)
  | .slt, a, b => if a.slt b then 1 else 0
  | .sltu, a, b => if a.ult b then 1 else 0

inductive Condition where
  | eq
  | ne
  | lt
  | ge
  | ltu
  | geu
deriving DecidableEq, Repr

def Condition.holds : Condition → BitVec 32 → BitVec 32 → Bool
  | .eq, a, b => a == b
  | .ne, a, b => a != b
  | .lt, a, b => a.slt b
  | .ge, a, b => !a.slt b
  | .ltu, a, b => a.ult b
  | .geu, a, b => !a.ult b

inductive Ins where
  | alu (f : Alu) (rd rs1 rs2 : Fin 32)
  | aluImm (f : Alu) (rd rs1 : Fin 32) (imm : BitVec 32)
  | branch (c : Condition) (rs1 rs2 : Fin 32) (imm : BitVec 32)
  | jal (rd : Fin 32) (imm : BitVec 32)
  | ecall

namespace Ins

/-- The state after an instruction; an environment call has none. -/
def execute (s : State) : Ins → Option State
  | .alu f rd rs1 rs2 => some ((s.write rd (f.eval (s.read rs1) (s.read rs2))).goto (s.pc + 4))
  | .aluImm f rd rs1 imm => some ((s.write rd (f.eval (s.read rs1) imm)).goto (s.pc + 4))
  | .branch c rs1 rs2 imm =>
      some (s.goto (if c.holds (s.read rs1) (s.read rs2) then s.pc + imm else s.pc + 4))
  | .jal rd imm => some ((s.write rd (s.pc + 4)).goto (s.pc + imm))
  | .ecall => none

def registerOps : List (Text × Alu) := [
  ("add".toList, .add), ("sub".toList, .sub), ("xor".toList, .xor), ("or".toList, .or),
  ("and".toList, .and), ("sll".toList, .sll), ("srl".toList, .srl), ("sra".toList, .sra),
  ("slt".toList, .slt), ("sltu".toList, .sltu)]

def immediateOps : List (Text × Alu) := [
  ("addi".toList, .add), ("xori".toList, .xor), ("ori".toList, .or), ("andi".toList, .and),
  ("sltiu".toList, .sltu)]

def conditions : List (Text × Condition) := [
  ("beq".toList, .eq), ("bne".toList, .ne), ("blt".toList, .lt), ("bge".toList, .ge),
  ("bltu".toList, .ltu), ("bgeu".toList, .geu)]

/-- The mnemonics of the machine. -/
def mnemonics : List Text :=
  registerOps.map Prod.fst ++ immediateOps.map Prod.fst ++ conditions.map Prod.fst ++
    ["jal".toList, "ecall".toList]

/-- The instruction that a mnemonic with its operands stands for; immediates are extended by their
sign. -/
def ofStep? (step : Assembly.Step) : Option Ins :=
  match step.operands with
  | ⟨some [rd, rs1, rs2], none⟩ =>
      (registerOps.lookup step.op).map fun f => .alu f (.ofNat 32 rd) (.ofNat 32 rs1) (.ofNat 32 rs2)
  | ⟨some [a, b], some imm⟩ =>
      match immediateOps.lookup step.op with
      | some f => some (.aluImm f (.ofNat 32 a) (.ofNat 32 b) (.ofInt 32 imm))
      | none =>
          (conditions.lookup step.op).map fun c => .branch c (.ofNat 32 a) (.ofNat 32 b) (.ofInt 32 imm)
  | ⟨some [rd], some imm⟩ =>
      if step.op = "jal".toList then some (.jal (.ofNat 32 rd) (.ofInt 32 imm)) else none
  | ⟨none, none⟩ => if step.op = "ecall".toList then some .ecall else none
  | _ => none

end Ins

/-- What a machine has come to: it is running, an environment call has ended the run, or there was no
instruction at its program counter. -/
inductive Status where
  | running (s : State)
  | exited
  | unloaded

/-- The instruction at an address of a program. -/
def fetch (program : Assoc Int Assembly.Step) (pc : BitVec 32) : Option Ins :=
  (program.get? (pc.toNat : Int)).bind Ins.ofStep?

def step (program : Assoc Int Assembly.Step) (s : State) : Status :=
  match fetch program s.pc with
  | none => .unloaded
  | some ins =>
      match ins.execute s with
      | some s' => .running s'
      | none => .exited

/-- What the machine has come to after a number of steps. -/
def after (program : Assoc Int Assembly.Step) : State → Nat → Status
  | s, 0 => .running s
  | s, k + 1 =>
      match step program s with
      | .running s' => after program s' k
      | status => status

end RvToolkit.Reference
