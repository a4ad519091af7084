import RvToolkit.Instruction.Format

namespace RvToolkit

/-- The fixed fields of an instruction. -/
structure Code where
  opcode : Nat
  funct3 : Nat := 0
  funct7 : Nat := 0
deriving DecidableEq, Repr

namespace Code

/-- The instructions that a format can encode. -/
def table : Format → List (Text × Code)
  | .R => [
      ("add".toList, ⟨0b0110011, 0b000, 0b0000000⟩), ("sub".toList, ⟨0b0110011, 0b000, 0b0100000⟩),
      ("sll".toList, ⟨0b0110011, 0b001, 0b0000000⟩), ("slt".toList, ⟨0b0110011, 0b010, 0b0000000⟩),
      ("sltu".toList, ⟨0b0110011, 0b011, 0b0000000⟩), ("xor".toList, ⟨0b0110011, 0b100, 0b0000000⟩),
      ("srl".toList, ⟨0b0110011, 0b101, 0b0000000⟩), ("sra".toList, ⟨0b0110011, 0b101, 0b0100000⟩),
      ("or".toList, ⟨0b0110011, 0b110, 0b0000000⟩), ("and".toList, ⟨0b0110011, 0b111, 0b0000000⟩)]
  | .I => [
      ("addi".toList, ⟨0b0010011, 0b000, 0⟩), ("xori".toList, ⟨0b0010011, 0b100, 0⟩),
      ("ori".toList, ⟨0b0010011, 0b110, 0⟩), ("andi".toList, ⟨0b0010011, 0b111, 0⟩),
      ("slti".toList, ⟨0b0010011, 0b010, 0⟩), ("sltiu".toList, ⟨0b0010011, 0b011, 0⟩),
      ("slli".toList, ⟨0b0010011, 0b001, 0b0000000⟩), ("srli".toList, ⟨0b0010011, 0b101, 0b0000000⟩),
      ("srai".toList, ⟨0b0010011, 0b101, 0b0100000⟩),
      ("lb".toList, ⟨0b0000011, 0b000, 0⟩), ("lh".toList, ⟨0b0000011, 0b001, 0⟩),
      ("lw".toList, ⟨0b0000011, 0b010, 0⟩), ("lbu".toList, ⟨0b0000011, 0b100, 0⟩),
      ("lhu".toList, ⟨0b0000011, 0b101, 0⟩), ("jalr".toList, ⟨0b1100111, 0b000, 0⟩),
      ("ecall".toList, ⟨0b1110011, 0b000, 0⟩), ("ebreak".toList, ⟨0b1110011, 0b000, 0⟩)]
  | .S => [
      ("sb".toList, ⟨0b0100011, 0b000, 0⟩), ("sh".toList, ⟨0b0100011, 0b001, 0⟩),
      ("sw".toList, ⟨0b0100011, 0b010, 0⟩)]
  | .B => [
      ("beq".toList, ⟨0b1100011, 0b000, 0⟩), ("bne".toList, ⟨0b1100011, 0b001, 0⟩),
      ("blt".toList, ⟨0b1100011, 0b100, 0⟩), ("bge".toList, ⟨0b1100011, 0b101, 0⟩),
      ("bltu".toList, ⟨0b1100011, 0b110, 0⟩), ("bgeu".toList, ⟨0b1100011, 0b111, 0⟩)]
  | .U => [("lui".toList, ⟨0b0110111, 0, 0⟩), ("auipc".toList, ⟨0b0010111, 0, 0⟩)]
  | .J => [("jal".toList, ⟨0b1101111, 0, 0⟩)]

def find? (f : Format) (op : Text) : Option Code := (table f).lookup op

end Code

/-- An instruction set: which format each mnemonic has. Of two entries for one mnemonic the later one
counts. -/
abbrev Isa := List (Text × Format)

namespace Isa

def format? (isa : Isa) (op : Text) : Option Format := isa.reverse.lookup op

def base : Isa := Format.all.flatMap fun f => (Code.table f).map fun p => (p.1, f)

end Isa

end RvToolkit
