
namespace CompiledModels

@[default_instance 20000]
instance (priority := 2000) builtInPower {α : Type} [NatPow α] : Pow α Nat := instPowNat

end CompiledModels
