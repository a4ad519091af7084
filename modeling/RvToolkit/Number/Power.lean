namespace RvToolkit.Number

instance (priority := 2000) naturalPower {α : Type} [NatPow α] : Pow α Nat := instPowNat

end RvToolkit.Number
