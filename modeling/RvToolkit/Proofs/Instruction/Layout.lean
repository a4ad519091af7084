import RvToolkit.Instruction.Encode
import RvToolkit.Proofs.Bits

namespace RvToolkit

/-- An instruction read from a word: its mnemonic, the registers in their roles, the immediate. -/
inductive Decoded where
  | r (op : Text) (rd rs1 rs2 : Nat)
  | i (op : Text) (rd rs1 : Nat) (imm : Int)
  | s (op : Text) (rs1 rs2 : Nat) (imm : Int)
  | b (op : Text) (rs1 rs2 : Nat) (imm : Int)
  | u (op : Text) (rd : Nat) (imm : Int)
  | j (op : Text) (rd : Nat) (imm : Int)
deriving DecidableEq, Repr

namespace Decoded

def op : Decoded → Text
  | .r op .. | .i op .. | .s op .. | .b op .. | .u op .. | .j op .. => op

/-- The registers in the order in which operands list them: a store names its source first. -/
def operands : Decoded → Operands
  | .r _ rd rs1 rs2 => ⟨some [rd, rs1, rs2], none⟩
  | .i _ rd rs1 imm => ⟨some [rd, rs1], some imm⟩
  | .s _ rs1 rs2 imm => ⟨some [rs2, rs1], some imm⟩
  | .b _ rs1 rs2 imm => ⟨some [rs1, rs2], some imm⟩
  | .u _ rd imm => ⟨some [rd], some imm⟩
  | .j _ rd imm => ⟨some [rd], some imm⟩

end Decoded

namespace Layout

variable (w : BitVec 32)

def opcode : Nat := (w.extractLsb' 0 7).toNat

def rd : Nat := (w.extractLsb' 7 5).toNat

def funct3 : Nat := (w.extractLsb' 12 3).toNat

def rs1 : Nat := (w.extractLsb' 15 5).toNat

def rs2 : Nat := (w.extractLsb' 20 5).toNat

def funct7 : Nat := (w.extractLsb' 25 7).toNat

def immI : Int := (w.extractLsb' 20 12).toInt

def immS : Int := (w.extractLsb' 25 7 ++ w.extractLsb' 7 5).toInt

def immB : Int :=
  (w.extractLsb' 31 1 ++ w.extractLsb' 7 1 ++ w.extractLsb' 25 6 ++ w.extractLsb' 8 4 ++ 0#1).toInt

def immU : Int := (w.extractLsb' 12 20).toInt

def immJ : Int :=
  (w.extractLsb' 31 1 ++ w.extractLsb' 12 8 ++ w.extractLsb' 20 1 ++ w.extractLsb' 21 10 ++ 0#1).toInt

/-- Operations between registers by `funct3` and `funct7`. -/
def registerOp? : Nat → Nat → Option Text
  | 0b000, 0b0000000 => some "add".toList
  | 0b000, 0b0100000 => some "sub".toList
  | 0b001, 0b0000000 => some "sll".toList
  | 0b010, 0b0000000 => some "slt".toList
  | 0b011, 0b0000000 => some "sltu".toList
  | 0b100, 0b0000000 => some "xor".toList
  | 0b101, 0b0000000 => some "srl".toList
  | 0b101, 0b0100000 => some "sra".toList
  | 0b110, 0b0000000 => some "or".toList
  | 0b111, 0b0000000 => some "and".toList
  | _, _ => none

/-- Shifts by an amount that stands in the place of the second source. -/
def shiftOp? : Nat → Nat → Option Text
  | 0b001, 0b0000000 => some "slli".toList
  | 0b101, 0b0000000 => some "srli".toList
  | 0b101, 0b0100000 => some "srai".toList
  | _, _ => none

def immediateOp? : Nat → Option Text
  | 0b000 => some "addi".toList
  | 0b010 => some "slti".toList
  | 0b011 => some "sltiu".toList
  | 0b100 => some "xori".toList
  | 0b110 => some "ori".toList
  | 0b111 => some "andi".toList
  | _ => none

def loadOp? : Nat → Option Text
  | 0b000 => some "lb".toList
  | 0b001 => some "lh".toList
  | 0b010 => some "lw".toList
  | 0b100 => some "lbu".toList
  | 0b101 => some "lhu".toList
  | _ => none

def jumpOp? : Nat → Option Text
  | 0b000 => some "jalr".toList
  | _ => none

def storeOp? : Nat → Option Text
  | 0b000 => some "sb".toList
  | 0b001 => some "sh".toList
  | 0b010 => some "sw".toList
  | _ => none

def branchOp? : Nat → Option Text
  | 0b000 => some "beq".toList
  | 0b001 => some "bne".toList
  | 0b100 => some "blt".toList
  | 0b101 => some "bge".toList
  | 0b110 => some "bltu".toList
  | 0b111 => some "bgeu".toList
  | _ => none

/-- The instruction of a word. Environment calls are left out. -/
def decode : Option Decoded :=
  match opcode w with
  | 0b0110011 => (registerOp? (funct3 w) (funct7 w)).map fun op => .r op (rd w) (rs1 w) (rs2 w)
  | 0b0010011 =>
      match immediateOp? (funct3 w) with
      | some op => some (.i op (rd w) (rs1 w) (immI w))
      | none => (shiftOp? (funct3 w) (funct7 w)).map fun op => .i op (rd w) (rs1 w) (rs2 w)
  | 0b0000011 => (loadOp? (funct3 w)).map fun op => .i op (rd w) (rs1 w) (immI w)
  | 0b1100111 => (jumpOp? (funct3 w)).map fun op => .i op (rd w) (rs1 w) (immI w)
  | 0b0100011 => (storeOp? (funct3 w)).map fun op => .s op (rs1 w) (rs2 w) (immS w)
  | 0b1100011 => (branchOp? (funct3 w)).map fun op => .b op (rs1 w) (rs2 w) (immB w)
  | 0b0110111 => some (.u "lui".toList (rd w) (immU w))
  | 0b0010111 => some (.u "auipc".toList (rd w) (immU w))
  | 0b1101111 => some (.j "jal".toList (rd w) (immJ w))
  | _ => none

end Layout

end RvToolkit
